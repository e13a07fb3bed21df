import Mathlib.Data.List.TakeWhile
import Mathlib.Data.Int.Notation
import Mathlib.Tactic.Common

/-!
# JSON texts

Values are written without blanks; how a character is written inside a string is a parameter. If the characters
can be told apart, so can the values: a text is that of one value at most, also where something follows it
(`write_cancel`, `write_injective`). So whatever pieces a text was put together from, it is enough to know one value
that it is written from.
-/

namespace JsonText

/-- A value; its numbers are integers. -/
inductive Tree where
  | null
  | bool (b : Bool)
  | num (n : ℤ)
  | str (s : String)
  | arr (items : List Tree)
  | obj (fields : List (String × Tree))

section Write
variable (escape : Char → List Char)

def writeString (s : String) : List Char := '"' :: (s.toList.flatMap escape ++ ['"'])

mutual

/-- The text of a value. -/
def write : Tree → List Char
  | .null => ['n', 'u', 'l', 'l']
  | .bool true => ['t', 'r', 'u', 'e']
  | .bool false => ['f', 'a', 'l', 's', 'e']
  | .num n => (toString n).toList
  | .str s => writeString escape s
  | .arr items => '[' :: writeItems [] items
  | .obj fields => '{' :: writeFields [] fields

/-- The items of a list with its end; a text comes before the first one and a comma before each other. -/
def writeItems (before : List Char) : List Tree → List Char
  | [] => [']']
  | v :: items => before ++ (write v ++ writeItems [','] items)

def writeFields (before : List Char) : List (String × Tree) → List Char
  | [] => ['}']
  | (k, v) :: fields => before ++ (writeString escape k ++ ':' :: (write v ++ writeFields [','] fields))

end

/-- One field. -/
def writeField (e : String × Tree) : List Char := writeString escape e.1 ++ ':' :: write escape e.2

end Write

variable {escape : Char → List Char}

lemma write_str (s : String) : write escape (.str s) = writeString escape s := by
  rw [write]

lemma write_singleton (v : Tree) : write escape (.arr [v]) = '[' :: (write escape v ++ [']']) := by
  rw [write, writeItems, writeItems, List.nil_append]

lemma writeFields_eq (before : List Char) (fields : List (String × Tree)) :
    writeFields escape before fields =
      (if fields = [] then [] else before) ++ List.intercalate [','] (fields.map (writeField escape)) ++ ['}'] := by
  induction fields generalizing before with
  | nil => rw [writeFields]; rfl
  | cons e fields ih =>
    obtain ⟨k, v⟩ := e
    rw [writeFields, ih, List.map_cons]
    cases fields with
    | nil => simp [writeField]
    | cons e fields => simp [writeField, List.intercalate_cons_cons]

/-- The fields of an object, joined by commas. -/
lemma write_obj (fields : List (String × Tree)) :
    write escape (.obj fields) = '{' :: (List.intercalate [','] (fields.map (writeField escape)) ++ ['}']) := by
  rw [write, writeFields_eq, ite_self, List.nil_append]

/-! ## A text is of one value -/

/-- What is written for characters can be told apart, and from the end of the string. -/
structure Readable (escape : Char → List Char) : Prop where
  char : ∀ c d r s, escape c ++ r = escape d ++ s → c = d ∧ r = s
  quote : ∀ c r s, escape c ++ r ≠ '"' :: s

/-- What comes after a number is not a digit. -/
def Stops (r : List Char) : Prop := ∀ c ∈ r.head?, c.isDigit = false

lemma toDigits_cancel {m n : ℕ} {r s : List Char} (hr : Stops r) (hs : Stops s)
    (same : Nat.toDigits 10 m ++ r = Nat.toDigits 10 n ++ s) : m = n ∧ r = s := by
  have digits : ∀ {k : ℕ} {t : List Char}, Stops t →
      (Nat.toDigits 10 k ++ t).takeWhile Char.isDigit = Nat.toDigits 10 k ∧
        (Nat.toDigits 10 k ++ t).dropWhile Char.isDigit = t := by
    intro k t stops
    have all : ∀ c ∈ Nat.toDigits 10 k, c.isDigit = true :=
      fun c mem => Nat.isDigit_of_mem_toDigits (by decide) (by decide) mem
    rw [List.takeWhile_append_of_pos all, List.dropWhile_append_of_pos all]
    cases t with
    | nil => simp
    | cons c t =>
      have stop : c.isDigit = false := stops c rfl
      simp [stop]
  obtain ⟨takeM, dropM⟩ := @digits m r hr
  obtain ⟨takeN, dropN⟩ := @digits n s hs
  rw [same] at takeM dropM
  refine ⟨?_, dropM.symm.trans dropN⟩
  rw [← Nat.ofDigitChars_toDigits (b := 10) (n := m) (by decide) (by decide), takeM.symm.trans takeN,
    Nat.ofDigitChars_toDigits (by decide) (by decide)]

lemma toList_toString (n : ℤ) : (toString n).toList =
    if 0 ≤ n then Nat.toDigits 10 n.natAbs else '-' :: Nat.toDigits 10 n.natAbs := by
  cases n with
  | ofNat n => exact Nat.toList_repr
  | negSucc n =>
    show ("-" ++ Nat.repr (n + 1)).toList = '-' :: Nat.toDigits 10 (n + 1)
    rw [String.toList_append, Nat.toList_repr]
    rfl

lemma toDigits_ne_minus (n : ℕ) (r s : List Char) : Nat.toDigits 10 n ++ r ≠ '-' :: s := by
  intro same
  cases digits : Nat.toDigits 10 n with
  | nil => exact Nat.toDigits_ne_nil digits
  | cons c l =>
    rw [digits] at same
    have first : c = '-' := (List.cons.inj same).1
    have digit : c.isDigit = true :=
      Nat.isDigit_of_mem_toDigits (by decide) (by decide) (digits ▸ List.mem_cons_self)
    rw [first] at digit
    exact absurd digit (by decide)

lemma num_cancel {m n : ℤ} {r s : List Char} (hr : Stops r) (hs : Stops s)
    (same : (toString m).toList ++ r = (toString n).toList ++ s) : m = n ∧ r = s := by
  rw [toList_toString, toList_toString] at same
  split at same
  case isTrue posM =>
    split at same
    case isTrue posN =>
      obtain ⟨abs, rest⟩ := toDigits_cancel hr hs same
      exact ⟨by omega, rest⟩
    case isFalse negN => exact absurd same (toDigits_ne_minus _ _ _)
  case isFalse negM =>
    split at same
    case isTrue posN => exact absurd same.symm (toDigits_ne_minus _ _ _)
    case isFalse negN =>
      obtain ⟨abs, rest⟩ := toDigits_cancel hr hs (List.cons.inj same).2
      exact ⟨by omega, rest⟩

lemma chars_cancel (ready : Readable escape) {k l r s : List Char}
    (same : k.flatMap escape ++ '"' :: r = l.flatMap escape ++ '"' :: s) : k = l ∧ r = s := by
  induction k generalizing l with
  | nil =>
    cases l with
    | nil => exact ⟨rfl, (List.cons.inj same).2⟩
    | cons d l =>
      rw [List.flatMap_cons, List.append_assoc] at same
      exact absurd same.symm (ready.quote _ _ _)
  | cons c k ih =>
    rw [List.flatMap_cons, List.append_assoc] at same
    cases l with
    | nil => exact absurd same (ready.quote _ _ _)
    | cons d l =>
      rw [List.flatMap_cons, List.append_assoc] at same
      obtain ⟨rfl, rest⟩ := ready.char _ _ _ _ same
      obtain ⟨rfl, after⟩ := ih rest
      exact ⟨rfl, after⟩

lemma string_cancel (ready : Readable escape) {k l : String} {r s : List Char}
    (same : writeString escape k ++ r = writeString escape l ++ s) : k = l ∧ r = s := by
  rw [writeString, writeString, List.cons_append, List.cons_append, List.append_assoc, List.append_assoc] at same
  obtain ⟨chars, rest⟩ := chars_cancel ready (List.cons.inj same).2
  exact ⟨String.toList_inj.mp chars, rest⟩

/-- Which kind of value starts with a character; 6 if none does. -/
def startKind (c : Char) : ℕ :=
  if c = 'n' then 0 else if c = 't' then 1 else if c = 'f' then 2 else if c = '-' ∨ c.isDigit then 3
  else if c = '"' then 4 else if c = '[' then 5 else if c = '\x7b' then 6 else 7

/-- The kind of a value. -/
def Tree.kind : Tree → ℕ
  | .null => 0
  | .bool true => 1
  | .bool false => 2
  | .num _ => 3
  | .str _ => 4
  | .arr _ => 5
  | .obj _ => 6

lemma write_starts (v : Tree) : ∃ c l, write escape v = c :: l ∧ startKind c = v.kind := by
  cases v with
  | null => exact ⟨_, _, by rw [write], rfl⟩
  | bool b =>
    cases b with
    | _ => exact ⟨_, _, by rw [write], rfl⟩
  | num n =>
    rw [write, toList_toString]
    split
    · cases digits : Nat.toDigits 10 n.natAbs with
      | nil => exact (Nat.toDigits_ne_nil digits).elim
      | cons c l =>
        have digit : c.isDigit = true :=
          Nat.isDigit_of_mem_toDigits (by decide) (by decide) (digits ▸ List.mem_cons_self)
        refine ⟨c, l, rfl, ?_⟩
        have letter : ∀ d : Char, d.isDigit = false → c ≠ d := by
          rintro d other rfl
          rw [digit] at other
          cases other
        rw [startKind, if_neg (letter _ rfl), if_neg (letter _ rfl), if_neg (letter _ rfl), if_pos (.inr digit),
          Tree.kind]
    · exact ⟨_, _, rfl, rfl⟩
  | str s => exact ⟨_, _, by rw [write, writeString], rfl⟩
  | arr items => exact ⟨_, _, by rw [write], rfl⟩
  | obj fields => exact ⟨_, _, by rw [write], rfl⟩

lemma kind_eq {v w : Tree} {r s : List Char} (same : write escape v ++ r = write escape w ++ s) :
    v.kind = w.kind := by
  obtain ⟨c, l, start, kind⟩ := @write_starts escape v
  obtain ⟨d, m, start', kind'⟩ := @write_starts escape w
  rw [start, start'] at same
  rw [← kind, ← kind', (List.cons.inj same).1]

/-- No value starts with what ends a list or an object. -/
lemma write_ne {v : Tree} {c : Char} (never : startKind c = 7) (r s : List Char) : write escape v ++ r ≠ c :: s := by
  intro same
  obtain ⟨d, l, start, kind⟩ := @write_starts escape v
  rw [start] at same
  have first : d = c := (List.cons.inj same).1
  rw [first, never] at kind
  cases v with
  | bool b => cases b <;> cases kind
  | _ => cases kind

lemma stops_items (items : List Tree) (r : List Char) : Stops (writeItems escape [','] items ++ r) := by
  cases items with
  | _ =>
    rw [writeItems]
    rintro c ⟨⟩
    rfl

lemma stops_fields (fields : List (String × Tree)) (r : List Char) :
    Stops (writeFields escape [','] fields ++ r) := by
  cases fields with
  | _ =>
    rw [writeFields]
    rintro c ⟨⟩
    rfl

/-- Two values of one kind; those with nothing inside are the same. -/
inductive Tree.Alike : Tree → Tree → Prop where
  | null : Alike .null .null
  | bool (b : Bool) : Alike (.bool b) (.bool b)
  | num (m n : ℤ) : Alike (.num m) (.num n)
  | str (k l : String) : Alike (.str k) (.str l)
  | arr (items items' : List Tree) : Alike (.arr items) (.arr items')
  | obj (fields fields' : List (String × Tree)) : Alike (.obj fields) (.obj fields')

lemma Tree.alike {v w : Tree} (same : v.kind = w.kind) : v.Alike w := by
  cases v with
  | bool b =>
    cases w with
    | bool c =>
      cases b <;> cases c <;> first | exact .bool _ | cases same
    | _ => cases b <;> cases same
  | _ =>
    cases w with
    | bool c => cases c <;> cases same
    | _ => first | constructor | cases same

mutual

/-- A text starts with one value at most, as long as a number is not followed by a digit. -/
theorem write_cancel (ready : Readable escape) : ∀ (v w : Tree) {r s : List Char}, Stops r → Stops s →
    write escape v ++ r = write escape w ++ s → v = w ∧ r = s
  | .null, w, r, s, hr, hs, same => by
    cases Tree.alike (kind_eq same) with
    | null => exact ⟨rfl, List.append_cancel_left same⟩
  | .bool b, w, r, s, hr, hs, same => by
    cases Tree.alike (kind_eq same) with
    | bool b => exact ⟨rfl, List.append_cancel_left same⟩
  | .num m, w, r, s, hr, hs, same => by
    cases Tree.alike (kind_eq same) with
    | num m n =>
      rw [write, write] at same
      obtain ⟨rfl, rest⟩ := num_cancel hr hs same
      exact ⟨rfl, rest⟩
  | .str k, w, r, s, hr, hs, same => by
    cases Tree.alike (kind_eq same) with
    | str k l =>
      rw [write, write] at same
      obtain ⟨rfl, rest⟩ := string_cancel ready same
      exact ⟨rfl, rest⟩
  | .arr items, w, r, s, hr, hs, same => by
    cases Tree.alike (kind_eq same) with
    | arr items items' =>
      rw [write, write] at same
      obtain ⟨rfl, rest⟩ := items_cancel ready items items' (.inl rfl) (List.cons.inj same).2
      exact ⟨rfl, rest⟩
  | .obj fields, w, r, s, hr, hs, same => by
    cases Tree.alike (kind_eq same) with
    | obj fields fields' =>
      rw [write, write] at same
      obtain ⟨rfl, rest⟩ := fields_cancel ready fields fields' (.inl rfl) (List.cons.inj same).2
      exact ⟨rfl, rest⟩

lemma items_cancel (ready : Readable escape) : ∀ (xs ys : List Tree) {before r s : List Char},
    before = [] ∨ before = [','] → writeItems escape before xs ++ r = writeItems escape before ys ++ s →
      xs = ys ∧ r = s
  | [], ys, before, r, s, comma, same => by
    rw [writeItems] at same
    cases ys with
    | nil =>
      rw [writeItems] at same
      exact ⟨rfl, List.append_cancel_left same⟩
    | cons w ys =>
      rw [writeItems, List.append_assoc, List.append_assoc] at same
      rcases comma with rfl | rfl
      · exact absurd same.symm (write_ne rfl _ _)
      · exact absurd (List.cons.inj same).1 (by decide)
  | v :: xs, ys, before, r, s, comma, same => by
    rw [writeItems, List.append_assoc, List.append_assoc] at same
    cases ys with
    | nil =>
      rw [writeItems] at same
      rcases comma with rfl | rfl
      · exact absurd same (write_ne rfl _ _)
      · exact absurd (List.cons.inj same).1 (by decide)
    | cons w ys =>
      rw [writeItems, List.append_assoc, List.append_assoc] at same
      obtain ⟨rfl, rest⟩ := write_cancel ready v w (stops_items _ _) (stops_items _ _)
        (List.append_cancel_left same)
      obtain ⟨rfl, after⟩ := items_cancel ready xs ys (.inr rfl) rest
      exact ⟨rfl, after⟩

lemma fields_cancel (ready : Readable escape) : ∀ (xs ys : List (String × Tree)) {before r s : List Char},
    before = [] ∨ before = [','] → writeFields escape before xs ++ r = writeFields escape before ys ++ s →
      xs = ys ∧ r = s
  | [], ys, before, r, s, comma, same => by
    rw [writeFields] at same
    cases ys with
    | nil =>
      rw [writeFields] at same
      exact ⟨rfl, List.append_cancel_left same⟩
    | cons e ys =>
      rw [writeFields] at same
      rcases comma with rfl | rfl <;> exact absurd (List.cons.inj same).1 (by decide)
  | (k, v) :: xs, ys, before, r, s, comma, same => by
    rw [writeFields, List.append_assoc, List.append_assoc, List.cons_append, List.append_assoc] at same
    cases ys with
    | nil =>
      rw [writeFields] at same
      rcases comma with rfl | rfl <;> exact absurd (List.cons.inj same).1 (by decide)
    | cons e ys =>
      obtain ⟨l, w⟩ := e
      rw [writeFields, List.append_assoc, List.append_assoc, List.cons_append, List.append_assoc] at same
      obtain ⟨rfl, colon⟩ := string_cancel ready (List.append_cancel_left same)
      obtain ⟨rfl, rest⟩ := write_cancel ready v w (stops_fields _ _) (stops_fields _ _) (List.cons.inj colon).2
      obtain ⟨rfl, after⟩ := fields_cancel ready xs ys (.inr rfl) rest
      exact ⟨rfl, after⟩

end

/-- A text is of one value at most. -/
theorem write_injective (ready : Readable escape) : Function.Injective (write escape) := by
  intro v w same
  have nothing : Stops [] := by
    rintro c ⟨⟩
  exact (write_cancel ready v w nothing nothing (congrArg (· ++ []) same)).1

end JsonText
