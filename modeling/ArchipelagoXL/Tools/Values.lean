import Mathlib

/-!
# YAML values

The values that the tools read from a YAML, with the ways in which they look at them: as a text, a number,
a truth value, a sequence or a mapping. A tagged value, an alias and a value that could not be read are none of
these.
-/

namespace ArchipelagoXL.Tools

/-- A double: a number, an infinity or no number at all. -/
inductive F64 where
  | finite (q : ℚ)
  | infinite (negative : Bool)
  | nan
deriving DecidableEq

inductive Value where
  | null
  | boolean (b : Bool)
  | integer (i : ℤ)
  | floatingPoint (f : F64)
  | string (s : String)
  | sequence (items : List Value)
  | mapping (entries : List (Value × Value))
  | bad

namespace Value

def asBool : Value → Option Bool
  | boolean b => some b
  | _ => none

def asInteger : Value → Option ℤ
  | integer i => some i
  | _ => none

def asStr : Value → Option String
  | string s => some s
  | _ => none

def asSequence : Value → Option (List Value)
  | sequence items => some items
  | _ => none

def asMapping : Value → Option (List (Value × Value))
  | mapping entries => some entries
  | _ => none

def isMapping (v : Value) : Bool := v.asMapping.isSome

/-- The value under a key that is a text. -/
def entry (entries : List (Value × Value)) (key : String) : Option Value :=
  (entries.find? fun e => e.1.asStr == some key).map Prod.snd

def asMappingGet (v : Value) (key : String) : Option Value := v.asMapping.bind fun entries => entry entries key

@[simp] lemma entry_nil (key : String) : entry [] key = none := rfl

lemma entry_cons (e : Value × Value) (rest : List (Value × Value)) (key : String) :
    entry (e :: rest) key = if e.1.asStr = some key then some e.2 else entry rest key := by
  rw [entry, List.find?_cons]
  split
  case h_1 same => rw [if_pos (beq_iff_eq.1 same), Option.map_some]
  case h_2 other => rw [if_neg (beq_eq_false_iff_ne.1 other), entry]

lemma entry_append (before after : List (Value × Value)) (key : String) :
    entry (before ++ after) key = (entry before key).or (entry after key) := by
  rw [entry, List.find?_append, Option.map_or]
  rfl

end Value

/-! ## Numbers in texts -/

def parseDigits (l : List Char) : Option ℕ :=
  if l ≠ [] ∧ l.all Char.isDigit then some (Nat.ofDigitChars 10 l 0) else none

/-- Digits with or without a sign. -/
def parseSigned : List Char → Option ℤ
  | '-' :: l => (parseDigits l).map fun n : ℕ => -(n : ℤ)
  | '+' :: l => (parseDigits l).map fun n : ℕ => (n : ℤ)
  | l => (parseDigits l).map fun n : ℕ => (n : ℤ)

/-- Rust `parse::<i64>`. -/
def parseI64 (s : String) : Option ℤ := (parseSigned s.toList).filter fun i => -2 ^ 63 ≤ i ∧ i < 2 ^ 63

/-- `yaml_value_as_string` of the review module. -/
def reviewValueAsString : Value → Option String
  | .string s => some s
  | .boolean b => some (if b then "true" else "false")
  | .integer i => some (toString i)
  | _ => none

lemma parseI64_range {s : String} {i : ℤ} (parsed : parseI64 s = some i) : -2 ^ 63 ≤ i ∧ i < 2 ^ 63 := by
  rw [parseI64, Option.filter_eq_some_iff, decide_eq_true_iff] at parsed
  exact parsed.2

lemma parseDigits_toDigits (n : ℕ) : parseDigits (Nat.toDigits 10 n) = some n := by
  rw [parseDigits, if_pos, Nat.ofDigitChars_toDigits (by decide) (by decide)]
  refine ⟨Nat.toDigits_ne_nil, List.all_eq_true.2 fun c mem => ?_⟩
  exact Nat.isDigit_of_mem_toDigits (by decide) (by decide) mem

lemma parseSigned_toString (i : ℤ) : parseSigned (toString i).toList = some i := by
  cases i with
  | ofNat n =>
    have text : (toString (Int.ofNat n)).toList = Nat.toDigits 10 n := Nat.toList_repr
    have noSign : ∀ c ∈ Nat.toDigits 10 n, c ≠ '-' ∧ c ≠ '+' := by
      intro c mem
      have digit := Nat.isDigit_of_mem_toDigits (by decide) (by decide) mem
      constructor
      · rintro rfl
        exact absurd digit (by decide)
      · rintro rfl
        exact absurd digit (by decide)
    rw [text, parseSigned, parseDigits_toDigits]
    · rfl
    · intro l e
      exact (noSign '-' (e ▸ List.mem_cons_self)).1 rfl
    · intro l e
      exact (noSign '+' (e ▸ List.mem_cons_self)).2 rfl
  | negSucc n =>
    have text : (toString (Int.negSucc n)).toList = '-' :: Nat.toDigits 10 (n + 1) := by
      rw [← Nat.toList_repr, ← List.singleton_append]
      exact String.toList_append
    rw [text, parseSigned, parseDigits_toDigits]
    rfl

/-- The decimal text of an integer is read as this integer. -/
lemma parseI64_toString {i : ℤ} (range : -2 ^ 63 ≤ i ∧ i < 2 ^ 63) : parseI64 (toString i) = some i := by
  rw [parseI64, parseSigned_toString, Option.filter_some, if_pos (decide_eq_true range)]

end ArchipelagoXL.Tools
