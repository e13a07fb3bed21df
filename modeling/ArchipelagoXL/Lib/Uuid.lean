import Mathlib.Tactic.Common
import Mathlib.Data.Nat.Digits.Defs
import Mathlib.Tactic.IntervalCases

/-!
# UUIDs and their texts

A UUID is a 128-bit number. `Uuid.text` is its usual form, 32 lower-case hexadecimal digits in groups
of 8, 4, 4, 4 and 12; `Uuid.parseStr` reads every form a UUID parser accepts (with or without
hyphens, in braces, as a URN, in either case). Reading a text back gives the UUID
(`Uuid.parseStr_text`), so different UUIDs have different texts.
-/

structure Uuid where
  bits : BitVec 128
deriving DecidableEq

namespace Uuid

/-- The last `w` hexadecimal digits of `n`. -/
def hex : ℕ → ℕ → List Char
  | 0, _ => []
  | w + 1, n => hex w (n / 16) ++ [Nat.digitChar (n % 16)]

/-- The value of a hexadecimal digit. -/
def hexVal (c : Char) : Option ℕ :=
  if '0' ≤ c ∧ c ≤ '9' then some (c.toNat - 48)
  else if 'a' ≤ c ∧ c ≤ 'f' then some (c.toNat - 87)
  else if 'A' ≤ c ∧ c ≤ 'F' then some (c.toNat - 55)
  else none

/-- The number a run of hexadecimal digits stands for. -/
def parseHex (l : List Char) : Option ℕ :=
  l.foldlM (fun a c => (hexVal c).map (a * 16 + ·)) 0

/-- The hyphenated text. -/
def chars (u : Uuid) : List Char :=
  let n := u.bits.toNat
  hex 8 (n / 16 ^ 24) ++ '-' :: (hex 4 (n / 16 ^ 20) ++ '-' :: (hex 4 (n / 16 ^ 16) ++
    '-' :: (hex 4 (n / 16 ^ 12) ++ '-' :: hex 12 n)))

def text (u : Uuid) : String := String.ofList u.chars

/-- The digits of the hyphenated or the plain form. -/
def digits (l : List Char) : Option (List Char) :=
  if l.length = 36 then
    if l[8]? = some '-' ∧ l[13]? = some '-' ∧ l[18]? = some '-' ∧ l[23]? = some '-' then
      some (l.take 8 ++ ((l.drop 9).take 4 ++ ((l.drop 14).take 4 ++ ((l.drop 19).take 4 ++
        l.drop 24))))
    else none
  else if l.length = 32 then some l
  else none

/-- What is left of the braced or the URN form. -/
def unwrap (l : List Char) : List Char :=
  if l.length = 45 ∧ "urn:uuid:".toList.isPrefixOf l then l.drop 9
  else if l.length = 38 ∧ l.head? = some '{' ∧ l.getLast? = some '}' then (l.drop 1).dropLast
  else l

def parseStr (s : String) : Option Uuid := do
  let l ← digits (unwrap s.toList)
  let n ← parseHex l
  return ⟨BitVec.ofNat 128 n⟩

@[simp] lemma length_hex (w n : ℕ) : (hex w n).length = w := by
  induction w generalizing n with
  | zero => rfl
  | succ w ih => simp [hex, ih]

lemma drop_hex {w n k : ℕ} (h : w ≤ k) : (hex w n).drop k = [] :=
  List.drop_eq_nil_of_le (by simpa using h)

lemma hexVal_digitChar {d : ℕ} (h : d < 16) : hexVal (Nat.digitChar d) = some d := by
  interval_cases d <;> decide

lemma digitChar_ne_colon {d : ℕ} (h : d < 16) : Nat.digitChar d ≠ ':' := by
  interval_cases d <;> decide

lemma foldlM_hex (w n a : ℕ) :
    (hex w n).foldlM (fun a c => (hexVal c).map (a * 16 + ·)) a =
      some (a * 16 ^ w + n % 16 ^ w) := by
  induction w generalizing n with
  | zero => simp [hex, Nat.mod_one]
  | succ w ih =>
    rw [hex, List.foldlM_append, ih]
    have lt : n % 16 < 16 := Nat.mod_lt _ (by decide)
    simp only [Option.bind_eq_bind, Option.bind_some, List.foldlM_cons, List.foldlM_nil,
      hexVal_digitChar lt, Option.map_some, Option.pure_def, Option.some.injEq]
    rw [Nat.pow_succ', Nat.mod_mul]
    ring

lemma colon_not_mem_hex (w n : ℕ) : ':' ∉ hex w n := by
  induction w generalizing n with
  | zero => simp [hex]
  | succ w ih =>
    have ne := digitChar_ne_colon (Nat.mod_lt n (by decide : 0 < 16))
    simp [hex, ih, ne.symm]

/-- A UUID's text holds no colon. -/
lemma colon_not_mem_text (u : Uuid) : ':' ∉ u.text.toList := by
  simp [text, chars, colon_not_mem_hex]

lemma length_chars (u : Uuid) : u.chars.length = 36 := by
  simp [chars]

/-- The digits of the hyphenated text are its five groups. -/
lemma digits_chars (u : Uuid) :
    digits u.chars = some (hex 8 (u.bits.toNat / 16 ^ 24) ++ (hex 4 (u.bits.toNat / 16 ^ 20) ++
      (hex 4 (u.bits.toNat / 16 ^ 16) ++ (hex 4 (u.bits.toNat / 16 ^ 12) ++
        hex 12 u.bits.toNat)))) := by
  rw [digits, if_pos (length_chars u)]
  simp [chars, List.drop_append, drop_hex]

/-- Reading a UUID's text gives the UUID. -/
theorem parseStr_text (u : Uuid) : parseStr u.text = some u := by
  have whole : unwrap u.text.toList = u.chars := by
    simp [unwrap, text, length_chars]
  have lt : u.bits.toNat < 16 ^ 32 := by
    have := u.bits.isLt
    omega
  have value : parseHex (hex 8 (u.bits.toNat / 16 ^ 24) ++ (hex 4 (u.bits.toNat / 16 ^ 20) ++
      (hex 4 (u.bits.toNat / 16 ^ 16) ++ (hex 4 (u.bits.toNat / 16 ^ 12) ++
        hex 12 u.bits.toNat)))) = some u.bits.toNat := by
    unfold parseHex
    simp only [List.foldlM_append, foldlM_hex, Option.bind_eq_bind, Option.bind_some,
      Option.some.injEq]
    omega
  rw [parseStr, whole, digits_chars]
  simp only [Option.bind_eq_bind, Option.bind_some, value, BitVec.ofNat_toNat, BitVec.setWidth_eq]
  rfl

/-- Different UUIDs have different texts. -/
theorem text_injective {u v : Uuid} (e : u.text = v.text) : u = v := by
  have h := parseStr_text u
  rw [e, parseStr_text v, Option.some.injEq] at h
  exact h.symm

end Uuid
