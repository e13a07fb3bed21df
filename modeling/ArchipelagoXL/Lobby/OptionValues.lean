import ArchipelagoXL.Tools.Values

/-!
# The values of options

The options page knows of each option its type, its default and what it may be set to (`OptionDef`). A
YAML that is opened again gives each option a value: a scalar, or a mapping from values to weights, of
which a mapping with a single weight that counts is taken for its key (`coalesce`). `validateOptionValue`
finds the values that the option no longer has. A number is checked as a number when it stands alone and
as a text when it is the key of a mapping; `judged_alike_iff` says when both come to the same.
-/

namespace ArchipelagoXL.Lobby

open Tools (parseI64)

/-! ## JSON values -/

/-- Rust `serde_json::Number`, without its bounds for floats. -/
inductive JsonNumber where
  | integer (i : ℤ) (range : -2 ^ 63 ≤ i ∧ i < 2 ^ 64)
  | float (q : ℚ)

/-- Rust `serde_json::Value`; an object has its entries in the order of their keys. -/
inductive JsonValue where
  | null
  | bool (b : Bool)
  | number (n : JsonNumber)
  | string (s : String)
  | array (items : List JsonValue)
  | object (entries : List (String × JsonValue))

namespace JsonValue

/-- Rust `Value::as_str`. -/
def asStr : JsonValue → Option String
  | string s => some s
  | _ => none

/-- Rust `Value::as_i64`. -/
def asI64 : JsonValue → Option ℤ
  | number (.integer i _) => if i < 2 ^ 63 then some i else none
  | _ => none

/-- Rust `Value::as_array`. -/
def asArray : JsonValue → Option (List JsonValue)
  | array items => some items
  | _ => none

/-- Rust `Value::as_object`. -/
def asObject : JsonValue → Option (List (String × JsonValue))
  | object entries => some entries
  | _ => none

/-- Rust `Value::is_object`. -/
def isObject (v : JsonValue) : Bool := v.asObject.isSome

/-- Rust `Value::is_array`. -/
def isArray (v : JsonValue) : Bool := v.asArray.isSome

/-- Whether a number is an integer (Rust `v.is_i64() || v.is_u64()`). -/
def isInteger : JsonValue → Bool
  | number (.integer _ _) => true
  | _ => false

end JsonValue

/-! ## Options -/

/-- What an option of a world may be set to (Rust `OptionDef`). -/
structure OptionDef where
  default : JsonValue
  ty : String
  range : Option (ℤ × ℤ)
  choices : Option (List String)
  suggestions : Option (List String)
  validKeys : Option (List String)

/-- Rust `WEIGHTED_TYPES`. -/
def weightedTypes : List String := ["bool", "choice", "named_range", "text_choice", "range", "text"]

namespace OptionDef

/-- Rust `OptionDef::has_valid_keys`. -/
def hasValidKeys (self : OptionDef) : Bool :=
  (self.validKeys.map fun v => !v.isEmpty).getD false

/-- Rust `OptionDef::has_complex_default`. -/
def hasComplexDefault (self : OptionDef) : Bool := self.default.isArray || self.default.isObject

/-- Rust `OptionDef::has_int_dict_values`. -/
def hasIntDictValues (self : OptionDef) : Bool :=
  (self.default.asObject.map fun obj => obj.isEmpty || obj.all fun e => e.2.isInteger).getD false

/-- Rust `OptionDef::is_editable`. -/
def isEditable (self : OptionDef) : Bool :=
  if self.ty = "unknown" then false
  else if self.ty = "dict" then self.hasValidKeys && self.hasIntDictValues
  else if self.ty ∈ ["set", "list", "counter"] ∧ self.hasValidKeys = false then false
  else if self.ty = "text" ∧ self.hasComplexDefault = true then false
  else true

end OptionDef

/-! ## The check -/

/-- Rust `validate_numeric_value`. -/
def validateNumericValue (value : ℤ) (optionDef : OptionDef) : Bool :=
  if optionDef.ty = "range" ∨ optionDef.ty = "named_range" then
    match optionDef.range with
    | some (min, max) => decide (value ≥ min) && decide (value ≤ max)
    | none => true
  else true

/-- Rust `validate_single_value`. -/
def validateSingleValue (value : String) (optionDef : OptionDef) : Bool :=
  -- "random", "random-low", "random-high" and so on are always valid
  if "random".toList.isPrefixOf value.toList then true
  else if optionDef.ty = "choice" then
    (optionDef.choices.map fun c => c.any (· == value)).getD true
  else if optionDef.ty = "text_choice" then
    (optionDef.suggestions.map fun s => s.any (· == value)).getD true
  else if optionDef.ty = "named_range" then
    if optionDef.suggestions.any fun s => s.any (· == value) then true
    else
      match parseI64 value with
      | some n => validateNumericValue n optionDef
      | none => false
  else true

/-- The entries of a weighted mapping that count. -/
def nonZero (mapping : List (String × JsonValue)) : List (String × JsonValue) :=
  mapping.filter fun e => (e.2.asI64.map fun n => decide (n ≠ 0)).getD true

/-- Rust `validate_option_value`. -/
def validateOptionValue (value : JsonValue) (optionDef : OptionDef) : Bool :=
  match value with
  | .object obj => (nonZero obj).all fun e => validateSingleValue e.1 optionDef
  | .string s => validateSingleValue s optionDef
  | .array arr =>
    if optionDef.hasValidKeys then
      arr.all fun v => (v.asStr.map fun s => (optionDef.validKeys.getD []).any (· == s)).getD true
    else true
  | value =>
    match value.asI64 with
    | some n => validateNumericValue n optionDef
    | none => true

/-- What `edit_yaml` takes a weighted mapping with a single weight that counts for. -/
def coalesce (value : JsonValue) (optionDef : OptionDef) : JsonValue :=
  (value.asObject.bind fun mapping =>
    if optionDef.ty ∈ weightedTypes then
      match nonZero mapping with
      | [e] => some (.string e.1)
      | _ => none
    else none).getD value

/-- What `edit_yaml` makes of the value of an option. -/
inductive EditedOption where
  | unsupported
  | outdated
  | prefilled (value : JsonValue)

/-- The turn of `edit_yaml` for an option that the world has. -/
def editOption (optionDef : OptionDef) (value : JsonValue) : EditedOption :=
  if value.isObject ∧ optionDef.ty ≠ "counter" ∧ optionDef.ty ≠ "dict" ∧ optionDef.ty ∉ weightedTypes then
    .unsupported
  else if optionDef.isEditable && !validateOptionValue (coalesce value optionDef) optionDef then
    .outdated
  else .prefilled (coalesce value optionDef)

/-- An option can have a value: only some types have mappings. -/
def OptionDef.Takes (self : OptionDef) (value : JsonValue) : Prop :=
  value.isObject = true → self.ty = "counter" ∨ self.ty = "dict" ∨ self.ty ∈ weightedTypes

/-- A value that an option can have is outdated or filled in. -/
lemma OptionDef.Takes.editOption_eq {optionDef : OptionDef} {value : JsonValue} (takes : optionDef.Takes value) :
    editOption optionDef value =
      if optionDef.isEditable && !validateOptionValue (coalesce value optionDef) optionDef then .outdated
      else .prefilled (coalesce value optionDef) := by
  rw [editOption, if_neg]
  rintro ⟨isObject, noCounter, noDict, unweighted⟩
  rcases takes isObject with counter | dict | weighted
  · exact noCounter counter
  · exact noDict dict
  · exact unweighted weighted

/-! ## Ways to write a value -/

/-- A weight that counts. -/
def Counts (weight : JsonValue) : Prop := weight.asI64 ≠ some 0

instance decidableCounts (weight : JsonValue) : Decidable (Counts weight) :=
  inferInstanceAs (Decidable (weight.asI64 ≠ some 0))

/-- A single value as a YAML may have it. -/
inductive Scalar where
  | text (s : String)
  | integer (i : ℤ) (range : -2 ^ 63 ≤ i ∧ i < 2 ^ 64)

namespace Scalar

/-- The value on its own. -/
def bare : Scalar → JsonValue
  | text s => .string s
  | integer i range => .number (.integer i range)

/-- The value as a key of a mapping. -/
def key : Scalar → String
  | text s => s
  | integer i _ => toString i

end Scalar

/-- A mapping in which only one key has a weight that counts. -/
structure OnlyWeight (key : String) (mapping : List (String × JsonValue)) : Prop where
  nodup : (mapping.map Prod.fst).Nodup
  counts : ∃ weight, (key, weight) ∈ mapping ∧ Counts weight
  others : ∀ e ∈ mapping, e.1 ≠ key → ¬ Counts e.2

lemma nonZero_eq (mapping : List (String × JsonValue)) :
    nonZero mapping = mapping.filter fun e => decide (e.2.asI64 ≠ some 0) := by
  unfold nonZero
  congr 1
  funext e
  cases e.2.asI64 <;> simp

lemma mem_nonZero {mapping : List (String × JsonValue)} {e : String × JsonValue} :
    e ∈ nonZero mapping ↔ e ∈ mapping ∧ Counts e.2 := by
  rw [nonZero_eq, List.mem_filter, decide_eq_true_eq]
  rfl

/-- The one entry that counts is all that is left. -/
lemma OnlyWeight.nonZero_eq {key : String} {mapping : List (String × JsonValue)} (only : OnlyWeight key mapping) :
    ∃ weight, nonZero mapping = [(key, weight)] := by
  obtain ⟨weight, there, counts⟩ := only.counts
  refine ⟨weight, ?_⟩
  have each : ∀ e ∈ nonZero mapping, e.1 = key := by
    intro e mem
    by_contra other
    exact only.others e (mem_nonZero.mp mem).1 other (mem_nonZero.mp mem).2
  have names : ((nonZero mapping).map Prod.fst).Nodup := only.nodup.sublist (List.filter_sublist.map _)
  have here : (key, weight) ∈ nonZero mapping := mem_nonZero.mpr ⟨there, counts⟩
  cases found : nonZero mapping with
  | nil =>
    rw [found] at here
    cases here
  | cons e rest =>
    rw [found] at each names here
    cases rest with
    | nil => rw [List.mem_singleton.mp here]
    | cons e' rest =>
      -- a second entry would have the same key
      have same : e.1 = e'.1 := (each e List.mem_cons_self).trans (each e' (by simp)).symm
      rw [List.map_cons, List.map_cons, List.nodup_cons] at names
      exact absurd (same ▸ List.mem_cons_self) names.1

/-! ## What the check says of them -/

/-- The check of `edit_yaml` has nothing against a value. -/
def Accepts (optionDef : OptionDef) (value : JsonValue) : Prop := editOption optionDef value ≠ .outdated

section

variable {optionDef : OptionDef}

lemma accepts_iff (weighted : optionDef.ty ∈ weightedTypes) (value : JsonValue) :
    Accepts optionDef value ↔
      (optionDef.isEditable = true → validateOptionValue (coalesce value optionDef) optionDef = true) := by
  have takes : optionDef.Takes value := fun _ => .inr (.inr weighted)
  rw [Accepts, takes.editOption_eq]
  cases optionDef.isEditable <;> cases validateOptionValue (coalesce value optionDef) optionDef <;> simp

lemma coalesce_onlyWeight (weighted : optionDef.ty ∈ weightedTypes) {key : String}
    {mapping : List (String × JsonValue)} (only : OnlyWeight key mapping) :
    coalesce (.object mapping) optionDef = .string key := by
  obtain ⟨weight, single⟩ := only.nonZero_eq
  simp [coalesce, JsonValue.asObject, weighted, single]

/-- A mapping with one weight that counts is judged by its key. -/
lemma accepts_onlyWeight (weighted : optionDef.ty ∈ weightedTypes) {key : String}
    {mapping : List (String × JsonValue)} (only : OnlyWeight key mapping) :
    Accepts optionDef (.object mapping) ↔
      (optionDef.isEditable = true → validateSingleValue key optionDef = true) := by
  rw [accepts_iff weighted, coalesce_onlyWeight weighted only]
  rfl

lemma accepts_text (weighted : optionDef.ty ∈ weightedTypes) (s : String) :
    Accepts optionDef (.string s) ↔ (optionDef.isEditable = true → validateSingleValue s optionDef = true) := by
  rw [accepts_iff weighted]
  rfl

/-- A mapping is judged by its keys with a weight that counts, however many there are. -/
lemma accepts_object (weighted : optionDef.ty ∈ weightedTypes) (mapping : List (String × JsonValue)) :
    Accepts optionDef (.object mapping) ↔
      (optionDef.isEditable = true → ∀ e ∈ nonZero mapping, validateSingleValue e.1 optionDef = true) := by
  rw [accepts_iff weighted]
  have judged : validateOptionValue (coalesce (.object mapping) optionDef) optionDef =
      (nonZero mapping).all fun e => validateSingleValue e.1 optionDef := by
    simp only [coalesce, JsonValue.asObject, Option.bind_some, if_pos weighted]
    cases counting : nonZero mapping with
    | nil => simp [validateOptionValue, counting]
    | cons e rest =>
      cases rest with
      | nil => simp [validateOptionValue]
      | cons e' rest => simp [validateOptionValue, counting]
  rw [judged, List.all_eq_true]

/-- A mapping is judged as its entries are, each on its own. -/
lemma accepts_object_iff_each (weighted : optionDef.ty ∈ weightedTypes) (mapping : List (String × JsonValue)) :
    Accepts optionDef (.object mapping) ↔ ∀ e ∈ mapping, Accepts optionDef (.object [e]) := by
  simp only [accepts_object weighted, mem_nonZero, List.mem_singleton]
  constructor
  · rintro all e mem editable _ ⟨rfl, counts⟩
    exact all editable _ ⟨mem, counts⟩
  · rintro each editable e ⟨mem, counts⟩
    exact each e mem editable e ⟨rfl, counts⟩

end

/-! ## Numbers and their texts -/

/-- A number is within the bounds of an option. -/
def OptionDef.InRange (self : OptionDef) (i : ℤ) : Prop := ∀ min max, self.range = some (min, max) → min ≤ i ∧ i ≤ max

/-- A number is one of the suggestions of an option. -/
def OptionDef.Suggested (self : OptionDef) (i : ℤ) : Prop := ∃ s, self.suggestions = some s ∧ toString i ∈ s

/-- The check of a number on its own says what the check of its text says. -/
def OptionDef.AgreesOn (self : OptionDef) (i : ℤ) : Prop :=
  -- a number is always good for a choice, its text has to be there
  if self.ty = "choice" then ∀ choices, self.choices = some choices → toString i ∈ choices
  else if self.ty = "text_choice" then ∀ suggestions, self.suggestions = some suggestions → toString i ∈ suggestions
  -- a suggestion is taken without a look at the bounds, and a number beyond `i64` without any look
  else if self.ty = "named_range" then if i < 2 ^ 63 then self.Suggested i → self.InRange i else self.Suggested i
  -- a text is always good for a range
  else if self.ty = "range" then i < 2 ^ 63 → self.InRange i
  else True

section

variable {optionDef : OptionDef} {i : ℤ}

lemma not_random (i : ℤ) : "random".toList.isPrefixOf (toString i).toList = false := by
  cases i with
  | ofNat n =>
    have text : (toString (Int.ofNat n)).toList = Nat.toDigits 10 n := Nat.toList_repr
    rw [text]
    cases digits : Nat.toDigits 10 n with
    | nil => rfl
    | cons c rest =>
      have digit := Nat.isDigit_of_mem_toDigits (b := 10) (c := c) (by decide) (by decide) (digits ▸ List.mem_cons_self)
      have letter : ('r' == c) = false := by
        rw [beq_eq_false_iff_ne]
        rintro rfl
        exact absurd digit (by decide)
      show ('r' == c && _) = false
      rw [letter, Bool.false_and]
  | negSucc n =>
    have text : (toString (Int.negSucc n)).toList = '-' :: Nat.toDigits 10 (n + 1) := by
      rw [← Nat.toList_repr, ← List.singleton_append]
      exact String.toList_append
    rw [text]
    rfl

lemma inRange_iff (ranged : optionDef.ty = "range" ∨ optionDef.ty = "named_range") :
    validateNumericValue i optionDef = true ↔ optionDef.InRange i := by
  rw [validateNumericValue, if_pos ranged, OptionDef.InRange]
  cases optionDef.range with
  | none => simp
  | some bounds => simp [Prod.ext_iff]

lemma suggested_iff :
    (optionDef.suggestions.any fun s => s.any (· == toString i)) = true ↔ optionDef.Suggested i := by
  rw [OptionDef.Suggested]
  cases optionDef.suggestions <;> simp

lemma editable_of_ne_text (weighted : optionDef.ty ∈ weightedTypes) (notText : optionDef.ty ≠ "text") :
    optionDef.isEditable = true := by
  have other : ∀ ty ∉ weightedTypes, optionDef.ty ≠ ty := by
    rintro ty notMem rfl
    exact notMem weighted
  rw [OptionDef.isEditable, if_neg (other _ (by decide)), if_neg (other _ (by decide)), if_neg, if_neg]
  · exact fun h => notText h.1
  · rintro ⟨mem, -⟩
    simp only [List.mem_cons, List.not_mem_nil, or_false] at mem
    rcases mem with set_ | list | counter
    · exact other _ (by decide) set_
    · exact other _ (by decide) list
    · exact other _ (by decide) counter

lemma accepts_integer (weighted : optionDef.ty ∈ weightedTypes) (range : -2 ^ 63 ≤ i ∧ i < 2 ^ 64) :
    Accepts optionDef (.number (.integer i range)) ↔
      (optionDef.isEditable = true → i < 2 ^ 63 → validateNumericValue i optionDef = true) := by
  rw [accepts_iff weighted]
  have judged : validateOptionValue (coalesce (.number (.integer i range)) optionDef) optionDef = true ↔
      (i < 2 ^ 63 → validateNumericValue i optionDef = true) := by
    simp only [coalesce, JsonValue.asObject, Option.bind_none, Option.getD_none, validateOptionValue, JsonValue.asI64]
    by_cases small : i < 2 ^ 63
    · rw [if_pos small]
      exact ⟨fun h _ => h, fun h => h small⟩
    · rw [if_neg small]
      exact ⟨fun _ h => absurd h small, fun _ => rfl⟩
  rw [judged]

/-- What the check of a number's text comes to, type by type. -/
lemma validateSingleValue_integer (range : -2 ^ 63 ≤ i ∧ i < 2 ^ 64) :
    validateSingleValue (toString i) optionDef = true ↔
      if optionDef.ty = "choice" then ∀ choices, optionDef.choices = some choices → toString i ∈ choices
      else if optionDef.ty = "text_choice" then
        ∀ suggestions, optionDef.suggestions = some suggestions → toString i ∈ suggestions
      else if optionDef.ty = "named_range" then optionDef.Suggested i ∨ i < 2 ^ 63 ∧ optionDef.InRange i
      else True := by
  have noRandom : ¬ "random".toList.isPrefixOf (toString i).toList = true := by
    rw [not_random]
    decide
  rw [validateSingleValue, if_neg noRandom]
  split
  · cases optionDef.choices <;> simp
  split
  · cases optionDef.suggestions <;> simp
  split
  · rename_i named
    rw [← suggested_iff, ← inRange_iff (.inr named)]
    split
    · rename_i suggested
      exact iff_of_true rfl (.inl suggested)
    · rename_i unsuggested
      rw [or_iff_right unsuggested]
      by_cases small : i < 2 ^ 63
      · rw [Tools.parseI64_toString ⟨range.1, small⟩, and_iff_right small]
      · have beyond : parseI64 (toString i) = none := by
          rw [Tools.parseI64, Tools.parseSigned_toString, Option.filter_some, if_neg]
          rw [decide_eq_true_eq]
          exact fun h => small h.2
        rw [beyond]
        exact iff_of_false Bool.false_ne_true fun h => small h.1
  · exact iff_of_true rfl trivial

/-- The two checks of a number come to the same exactly where the option agrees on it. -/
lemma integer_alike_iff (weighted : optionDef.ty ∈ weightedTypes) (range : -2 ^ 63 ≤ i ∧ i < 2 ^ 64) :
    ((optionDef.isEditable = true → validateSingleValue (toString i) optionDef = true) ↔
        (optionDef.isEditable = true → i < 2 ^ 63 → validateNumericValue i optionDef = true)) ↔
      optionDef.AgreesOn i := by
  by_cases text : optionDef.ty = "text"
  · rw [validateSingleValue_integer range]
    simp [OptionDef.AgreesOn, validateNumericValue, text]
  · simp only [editable_of_ne_text weighted text, true_imp_iff, validateSingleValue_integer range]
    unfold OptionDef.AgreesOn
    split
    · rename_i choice
      simp [validateNumericValue, choice]
    split
    · rename_i textChoice
      simp [validateNumericValue, textChoice]
    split
    · rename_i named
      rw [inRange_iff (.inr named)]
      split
      · rename_i small
        simp only [small, true_imp_iff, true_and, or_iff_right_iff_imp]
      · rename_i large
        simp only [large, false_and, or_false, false_imp_iff, iff_true]
    · rename_i noChoice noTextChoice noNamed
      split
      · rename_i ranged
        rw [inRange_iff (.inl ranged)]
        simp
      · rename_i noRange
        simp [validateNumericValue, noRange, noNamed]

end

/-- An option of a range from 1 to 10. -/
def sampleRange : OptionDef where
  default := .number (.integer 5 (by decide))
  ty := "range"
  range := some (1, 10)
  choices := none
  suggestions := none
  validKeys := none

/-! ## Outdated values -/

/-- Outdated values are found however they are written: a single value is judged alike on its own and in
every mapping where only its weight counts, and a mapping as its entries, exactly when the value is a text
or the option agrees on the number. -/
theorem judged_alike_iff (optionDef : OptionDef) (weighted : optionDef.ty ∈ weightedTypes) (v : Scalar) :
    ((∀ mapping, OnlyWeight v.key mapping →
          (Accepts optionDef (.object mapping) ↔ Accepts optionDef v.bare)) ∧
        ∀ mapping, Accepts optionDef (.object mapping) ↔ ∀ e ∈ mapping, Accepts optionDef (.object [e])) ↔
      ∀ i range, v = .integer i range → optionDef.AgreesOn i := by
  rw [and_iff_left (accepts_object_iff_each weighted)]
  cases v with
  | text s =>
    constructor
    · intro _ i range same
      cases same
    · intro _ mapping only
      rw [accepts_onlyWeight weighted only]
      exact (accepts_text weighted s).symm
  | integer i range =>
    have alike : (∀ mapping, OnlyWeight (toString i) mapping →
        (Accepts optionDef (.object mapping) ↔ Accepts optionDef (.number (.integer i range)))) ↔
          optionDef.AgreesOn i := by
      rw [← integer_alike_iff weighted range, accepts_integer weighted range]
      constructor
      · intro all
        have only : OnlyWeight (toString i) [(toString i, .null)] := {
          nodup := by simp
          counts := ⟨.null, by simp, by simp [Counts, JsonValue.asI64]⟩
          others := by simp }
        exact (accepts_onlyWeight weighted only).symm.trans (all _ only)
      · intro same mapping only
        exact (accepts_onlyWeight weighted only).trans same
    refine alike.trans ⟨?_, fun agrees => agrees i range rfl⟩
    rintro agrees _ _ same
    cases same
    exact agrees

/-- A number in the range is judged alike. -/
theorem range_judges_seven :
    (∀ mapping, OnlyWeight "7" mapping →
        (Accepts sampleRange (.object mapping) ↔ Accepts sampleRange (.number (.integer 7 (by decide))))) ∧
      ∀ mapping, Accepts sampleRange (.object mapping) ↔ ∀ e ∈ mapping, Accepts sampleRange (.object [e]) := by
  refine (judged_alike_iff sampleRange (by decide) (.integer 7 (by decide))).mpr ?_
  rintro i range same
  cases same
  show (7 : ℤ) < 2 ^ 63 → sampleRange.InRange 7
  rintro - min max bounds
  cases bounds
  decide

/-- A number beyond the range is found when it stands alone, and missed when it is the key of a mapping. -/
theorem range_misses_twenty :
    ¬ ((∀ mapping, OnlyWeight "20" mapping →
          (Accepts sampleRange (.object mapping) ↔ Accepts sampleRange (.number (.integer 20 (by decide))))) ∧
        ∀ mapping, Accepts sampleRange (.object mapping) ↔ ∀ e ∈ mapping, Accepts sampleRange (.object [e])) := by
  rintro ⟨alike, -⟩
  have only : OnlyWeight "20" [("20", .number (.integer 50 (by decide)))] := {
    nodup := by simp
    counts := ⟨_, List.mem_cons_self, by decide⟩
    others := by simp }
  have bare : editOption sampleRange (.number (.integer 20 (by decide))) = .outdated := rfl
  have mapped : editOption sampleRange (.object [("20", .number (.integer 50 (by decide)))]) =
      .prefilled (.string "20") := rfl
  have accepted : Accepts sampleRange (.object [("20", .number (.integer 50 (by decide)))]) := by
    rw [Accepts, mapped]
    exact EditedOption.noConfusion
  exact (alike _ only).mp accepted bare

end ArchipelagoXL.Lobby
