import Mathlib.Algebra.BigOperators.Group.List.Basic
import Mathlib.Algebra.GroupWithZero.Nat
import Mathlib.Data.List.Basic
import Mathlib.Tactic.Common

/-!
# UTF-8

Texts as lists of characters, and the bytes they are stored as. An offset into a text counts bytes and may fall into the
middle of a character; a part of a text is cut out at the two ends it has (`get_middle`). Reading bytes that are no text
puts U+FFFD for what can't be read; the bytes of a text are read as this text (`fromUtf8Lossy_bytes`).
-/

namespace ArchipelagoXL.Utf8

/-- The bytes of a text (Rust `str::as_bytes`). -/
def bytes (text : List Char) : List UInt8 := text.flatMap String.utf8EncodeChar

/-- Rust `str::len`. -/
def len (text : List Char) : ℕ := (text.map Char.utf8Size).sum

@[simp] lemma bytes_nil : bytes [] = [] := rfl

lemma bytes_cons (c : Char) (text : List Char) : bytes (c :: text) = String.utf8EncodeChar c ++ bytes text :=
  List.flatMap_cons

/-- What is true of the bytes below 256 is true of all. -/
lemma forall_byte {p : UInt8 → Prop} (below : ∀ n < 256, p (UInt8.ofNat n)) (b : UInt8) : p b := by
  rw [← UInt8.ofNat_toNat (x := b)]
  exact below b.toNat b.toNat_lt

@[simp] lemma len_nil : len [] = 0 := rfl

lemma len_cons (c : Char) (text : List Char) : len (c :: text) = c.utf8Size + len text := by
  rw [len, List.map_cons, List.sum_cons, len]

lemma len_append (a b : List Char) : len (a ++ b) = len a + len b := by
  rw [len, List.map_append, List.sum_append, len, len]

lemma len_flatten (texts : List (List Char)) : len texts.flatten = (texts.map len).sum := by
  induction texts with
  | nil => rfl
  | cons text texts ih => rw [List.flatten_cons, len_append, ih, List.map_cons, List.sum_cons]

lemma len_pos {text : List Char} (some : text ≠ []) : 0 < len text := by
  cases text with
  | nil => exact absurd rfl some
  | cons c text =>
    rw [len_cons]
    exact Nat.add_pos_left c.utf8Size_pos _

lemma len_eq_zero {text : List Char} : len text = 0 ↔ text = [] := by
  constructor
  · intro none
    by_contra some
    exact Nat.ne_of_gt (len_pos some) none
  · rintro rfl
    rfl

/-! ## Parts of a text -/

/-- What is behind an offset, if the offset is between two characters. -/
def dropBytes : ℕ → List Char → Option (List Char)
  | 0, text => some text
  | _ + 1, [] => none
  | n + 1, c :: text => if c.utf8Size ≤ n + 1 then dropBytes (n + 1 - c.utf8Size) text else none
termination_by _ text => text.length

/-- What is before an offset, if the offset is between two characters. -/
def takeBytes : ℕ → List Char → Option (List Char)
  | 0, _ => some []
  | _ + 1, [] => none
  | n + 1, c :: text => if c.utf8Size ≤ n + 1 then (takeBytes (n + 1 - c.utf8Size) text).map (c :: ·) else none
termination_by _ text => text.length

/-- The part of a text between two offsets (Rust `str::get`). -/
def get (text : List Char) (start stop : ℕ) : Option (List Char) :=
  if start ≤ stop then (dropBytes start text).bind (takeBytes (stop - start)) else none

@[simp] lemma dropBytes_append (a b : List Char) : dropBytes (len a) (a ++ b) = some b := by
  induction a with
  | nil => rw [len_nil, List.nil_append, dropBytes]
  | cons c a ih =>
    obtain ⟨n, size⟩ := Nat.exists_eq_succ_of_ne_zero (Nat.ne_of_gt (len_pos (List.cons_ne_nil c a)))
    rw [size, List.cons_append, dropBytes, ← Nat.succ_eq_add_one, ← size, len_cons,
      if_pos (Nat.le_add_right _ _), Nat.add_sub_cancel_left, ih]

@[simp] lemma takeBytes_append (a b : List Char) : takeBytes (len a) (a ++ b) = some a := by
  induction a with
  | nil => rw [len_nil, List.nil_append, takeBytes]
  | cons c a ih =>
    obtain ⟨n, size⟩ := Nat.exists_eq_succ_of_ne_zero (Nat.ne_of_gt (len_pos (List.cons_ne_nil c a)))
    rw [size, List.cons_append, takeBytes, ← Nat.succ_eq_add_one, ← size, len_cons,
      if_pos (Nat.le_add_right _ _), Nat.add_sub_cancel_left, ih, Option.map_some]

/-- A part of a text is between its two ends. -/
lemma get_middle (a b c : List Char) : get (a ++ (b ++ c)) (len a) (len a + len b) = some b := by
  rw [get, if_pos (Nat.le_add_right _ _), dropBytes_append, Option.bind_some, Nat.add_sub_cancel_left,
    takeBytes_append]

/-- Of two places in a text the later one has what is between them before it. -/
lemma between {a b c d : List Char} (same : a ++ b = c ++ d) (le : len a ≤ len c) : ∃ m, c = a ++ m ∧ b = m ++ d := by
  rcases List.append_eq_append_iff.mp same with between | ⟨m, whole, rest⟩
  · exact between
  · rw [whole, len_append] at le
    have none : m = [] := len_eq_zero.mp (by omega)
    rw [none, List.append_nil] at whole
    rw [none, List.nil_append] at rest
    exact ⟨[], by rw [whole, List.append_nil], rest.symm⟩

/-! ## Bytes that may be no text -/

/-- How the bytes of a character go on: the range of the next byte, and how many bytes follow it. -/
def lead (b : UInt8) : Option (UInt8 × UInt8 × ℕ) :=
  if 0xc2 ≤ b ∧ b ≤ 0xdf then some (0x80, 0xbf, 0)
  else if b = 0xe0 then some (0xa0, 0xbf, 1)
  else if b = 0xed then some (0x80, 0x9f, 1)
  else if 0xe1 ≤ b ∧ b ≤ 0xef then some (0x80, 0xbf, 1)
  else if b = 0xf0 then some (0x90, 0xbf, 2)
  else if 0xf1 ≤ b ∧ b ≤ 0xf3 then some (0x80, 0xbf, 2)
  else if b = 0xf4 then some (0x80, 0x8f, 2)
  else none

/-- How many of the bytes behind the first one belong to its character. -/
def following (b : UInt8) (rest : List UInt8) : ℕ :=
  match lead b, rest with
  | some (low, high, more), next :: rest =>
    if low ≤ next ∧ next ≤ high then
      1 + ((rest.take more).takeWhile fun byte => 0x80 ≤ byte && byte ≤ 0xbf).length
    else 0
  | _, _ => 0

/-- The characters of some bytes, with U+FFFD for each run of bytes that starts a character and doesn't finish it. -/
def replaceInvalid : ℕ → List UInt8 → List Char
  | 0, _ => []
  | _, [] => []
  | fuel + 1, b :: rest =>
    let count := following b rest
    let first := String.fromUTF8? (b :: rest.take count).toByteArray
    (first.map String.toList).getD ['\ufffd'] ++ replaceInvalid fuel (rest.drop count)

/-- Rust `String::from_utf8_lossy`. -/
def fromUtf8Lossy (read : List UInt8) : List Char :=
  match String.fromUTF8? read.toByteArray with
  | some text => text.toList
  | none => replaceInvalid read.length read

/-- The bytes of a text are read as this text. -/
theorem fromUtf8Lossy_bytes (text : List Char) : fromUtf8Lossy (bytes text) = text := by
  have same : (bytes text).toByteArray = (String.ofList text).toByteArray := String.toByteArray_ofList.symm
  have valid : String.fromUTF8? (bytes text).toByteArray = some (String.ofList text) := by
    rw [same, String.fromUTF8?, dif_pos (String.ofList text).isValidUTF8]
    rfl
  rw [fromUtf8Lossy, valid]
  exact String.toList_ofList

/-! ## ASCII -/

/-- A character that is one byte. -/
def IsAscii (c : Char) : Prop := c.toNat < 128

instance (c : Char) : Decidable (IsAscii c) := inferInstanceAs (Decidable (c.toNat < 128))

lemma bytes_ascii {text : List Char} (ascii : ∀ c ∈ text, IsAscii c) :
    bytes text = text.map fun c => UInt8.ofNat c.toNat := by
  induction text with
  | nil => rfl
  | cons c text ih =>
    have one : String.utf8EncodeChar c = [UInt8.ofNat c.toNat] := by
      have small : c.val.toNat ≤ 0x7f := Nat.le_of_lt_succ (ascii c List.mem_cons_self)
      rw [String.utf8EncodeChar]
      exact if_pos small
    rw [bytes_cons, one, ih fun d mem => ascii d (List.mem_cons_of_mem c mem)]
    rfl

end ArchipelagoXL.Utf8
