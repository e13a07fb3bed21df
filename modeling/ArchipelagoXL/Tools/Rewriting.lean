import Mathlib.Data.Int.Log
import Mathlib.Data.Rat.Floor
import ArchipelagoXL.Lib.BlockText
import ArchipelagoXL.Tools.Values

/-!
# Rewriting a YAML

Options are set in a YAML by writing it anew as text, with the new values in the place of the old ones, and reading
this text. The writer puts the keys down as they are and has one line for each item of a sequence, in which there
is no room for a sequence or a mapping. What is read back is the document `reread`, as long as each key and each
text can stand on a line of its own.

The library that reads the text is a parameter; of a text in the plain block style it is assumed to read what
`readDocument` reads.
-/

namespace ArchipelagoXL.Tools

open BlockText (Reading Line Content Reads EntryReads)

/-! ## Doubles as texts -/

namespace F64

/-- The integer next to a number; of two as near the even one. -/
def roundEven (q : ℚ) : ℤ :=
  let down := q.floor
  if q - down < 1 / 2 ∨ (q - down = 1 / 2 ∧ down % 2 = 0) then down else down + 1

/-- The double next to a positive number. -/
def roundPos (q : ℚ) : F64 :=
  let unit : ℚ := 2 ^ max (Int.log 2 q - 52) (-1074)
  let near := roundEven (q / unit) * unit
  if near < 2 ^ 1024 then .finite near else .infinite false

def neg : F64 → F64
  | .finite q => .finite (-q)
  | .infinite negative => .infinite !negative
  | .nan => .nan

/-- The digits `n` of a decimal `n * 10 ^ x` of `p` digits that stands for a positive double, if there is one. -/
def decimal (q : ℚ) (p : ℕ) : Option (ℕ × ℤ) :=
  let x := Int.log 10 q + 1 - p
  let down := (q / (10 : ℚ) ^ x).floor.toNat
  let near := if roundEven (q / (10 : ℚ) ^ x) = down then [down, down + 1] else [down + 1, down]
  (near.find? fun n : ℕ => roundPos ((n : ℚ) * (10 : ℚ) ^ x) == .finite q).map fun n =>
    if n % 10 = 0 then (n / 10, x + 1) else (n, x)

/-- The shortest decimal that stands for a positive double. -/
def shortest (q : ℚ) : ℕ × ℤ := (((List.range 17).map (· + 1)).findSome? (decimal q)).getD (0, 0)

/-- A decimal without an exponent. -/
def layOut (n : ℕ) (x : ℤ) : List Char :=
  let digits := Nat.toDigits 10 n
  if 0 ≤ x then digits ++ List.replicate x.toNat '0'
  else if digits.length ≤ x.natAbs then
    '0' :: '.' :: (List.replicate (x.natAbs - digits.length) '0' ++ digits)
  else digits.take (digits.length - x.natAbs) ++ '.' :: digits.drop (digits.length - x.natAbs)

/-- Rust `to_string`. -/
def text : F64 → List Char
  | .finite q =>
    if q = 0 then ['0']
    else if q < 0 then '-' :: layOut (shortest (-q)).1 (shortest (-q)).2
    else layOut (shortest q).1 (shortest q).2
  | .infinite negative => if negative then "-inf".toList else "inf".toList
  | .nan => "NaN".toList

end F64

/-! ## Reading scalars -/

inductive Scalar where
  | null
  | boolean (b : Bool)
  | integer (i : ℤ)
  | floatingPoint (f : F64)
  | string (s : String)
deriving DecidableEq

def Scalar.value : Scalar → Value
  | null => .null
  | boolean b => .boolean b
  | integer i => .integer i
  | floatingPoint f => .floatingPoint f
  | string s => .string s

/-- The value of digits in a base. -/
def parseRadix (base : ℕ) (l : List Char) : Option ℤ :=
  let digit := fun c : Char =>
    if c.isDigit then some (c.toNat - '0'.toNat)
    else if 'a' ≤ c ∧ c ≤ 'f' then some (c.toNat - 'a'.toNat + 10)
    else if 'A' ≤ c ∧ c ≤ 'F' then some (c.toNat - 'A'.toNat + 10)
    else none
  ((l.mapM fun c => (digit c).filter (· < base)).filter fun ds => ds ≠ []).map fun ds =>
    ((ds.foldl (fun n d => base * n + d) 0 : ℕ) : ℤ)

def parseCoreInteger : List Char → Option ℤ
  | '0' :: 'x' :: l => (parseRadix 16 l).filter fun i => i < 2 ^ 63
  | '0' :: 'o' :: l => (parseRadix 8 l).filter fun i => i < 2 ^ 63
  | l => parseI64 (String.ofList l)

/-- A decimal without a sign, with or without a fraction and an exponent. -/
def parseDecimal (l : List Char) : Option F64 :=
  let whole := l.takeWhile Char.isDigit
  let rest := l.dropWhile Char.isDigit
  let fraction := if rest.head? = some '.' then (rest.drop 1).takeWhile Char.isDigit else []
  let rest := if rest.head? = some '.' then (rest.drop 1).dropWhile Char.isDigit else rest
  if whole = [] ∧ fraction = [] then none
  else
    (if rest = [] then some 0
      else if rest.head? = some 'e' ∨ rest.head? = some 'E' then parseSigned (rest.drop 1)
      else none).map fun exponent : ℤ =>
      let q := (Nat.ofDigitChars 10 (whole ++ fraction) 0 : ℚ) * 10 ^ (exponent - fraction.length)
      if q = 0 then .finite 0 else F64.roundPos q

def parseCoreFloat (l : List Char) : Option F64 :=
  let unsigned := if l.head? = some '-' ∨ l.head? = some '+' then l.drop 1 else l
  let sign := if l.head? = some '-' then F64.neg else id
  if unsigned ∈ [".inf".toList, ".Inf".toList, ".INF".toList] then some (sign (.infinite false))
  else if l ∈ [".nan".toList, ".NaN".toList, ".NAN".toList] then some .nan
  else (parseDecimal unsigned).map sign

/-- What a scalar without quotes stands for (YAML 1.2, core schema; integers of 64 bits). -/
def plainScalar (l : List Char) : Scalar :=
  if l ∈ [[], ['~'], "null".toList, "Null".toList, "NULL".toList] then .null
  else if l ∈ ["true".toList, "True".toList, "TRUE".toList] then .boolean true
  else if l ∈ ["false".toList, "False".toList, "FALSE".toList] then .boolean false
  else
    match parseCoreInteger l, parseCoreFloat l with
    | some i, _ => .integer i
    | none, some f => .floatingPoint f
    | none, none => .string (String.ofList l)

def valueReading : Reading Scalar Value where
  plain := plainScalar
  quoted l := .string (String.ofList l)
  blank := .null
  scalar := Scalar.value
  items ss := .sequence (ss.map Scalar.value)
  entries es := .mapping (es.map fun e => (e.1.value, e.2))

/-- The document of a text in the plain block style. -/
def readDocument (text : String) : Option Value := BlockText.readText valueReading text.toList

/-! ## Writing -/

def replaceChar (c : Char) (rep : List Char) (l : List Char) : List Char :=
  l.flatMap fun d => if d = c then rep else [d]

def yamlValueToInline : Value → List Char
  | .string s => '"' :: (replaceChar '"' ['\\', '"'] (replaceChar '\\' ['\\', '\\'] s.toList) ++ ['"'])
  | .boolean b => if b then "true".toList else "false".toList
  | .integer i => (toString i).toList
  | .floatingPoint f => f.text
  | _ => "null".toList

/-- Rust `as_str().unwrap_or("")`. -/
def keyText (key : Value) : List Char := (key.asStr.getD "").toList

mutual

def serializeYamlEntry (key : List Char) (indent : ℕ) : Value → List (List Char)
  | .mapping entries =>
    (List.replicate indent ' ' ++ key ++ [':']) :: serializeYamlEntries (indent + 2) entries
  | .sequence items =>
    (List.replicate indent ' ' ++ key ++ [':']) ::
      items.map fun item => List.replicate indent ' ' ++ "  - ".toList ++ yamlValueToInline item
  | value => [List.replicate indent ' ' ++ key ++ ": ".toList ++ yamlValueToInline value]

def serializeYamlEntries (indent : ℕ) : List (Value × Value) → List (List Char)
  | [] => []
  | (k, v) :: rest => serializeYamlEntry (keyText k) indent v ++ serializeYamlEntries indent rest

end

def serializeYamlValue (indent : ℕ) : Value → List (List Char)
  | .mapping entries => serializeYamlEntries indent entries
  | .sequence items => items.map fun item => List.replicate indent ' ' ++ "- ".toList ++ yamlValueToInline item
  | value => [List.replicate indent ' ' ++ yamlValueToInline value]

/-- The values to set, under their game and their key. -/
abbrev YamlChanges := List ((String × String) × Value)

/-- Rust `HashMap::insert`. -/
def YamlChanges.insert (game key : String) (v : Value) (changes : YamlChanges) : YamlChanges :=
  changes.filter (fun c => c.1 != (game, key)) ++ [((game, key), v)]

/-- The changes of a game. -/
def YamlChanges.ofGame (changes : YamlChanges) (game : String) : List (String × Value) :=
  (changes.filter fun c => c.1.1 == game).map fun c => (c.1.2, c.2)

/-- The order in which the changes of a game come out of their map. -/
abbrev Arrangement := String → List (String × Value) → List (String × Value)

/-- The lines for one entry of the document. -/
def topLines (arrange : Arrangement) (changes : YamlChanges) (e : Value × Value) : List (List Char) :=
  let topKeyStr := e.1.asStr.getD ""
  let gameChanges := changes.ofGame topKeyStr
  (topKeyStr.toList ++ [':']) ::
    if gameChanges.isEmpty then serializeYamlValue 2 e.2
    else
      match e.2.asMapping with
      | some gameMap =>
        (gameMap.flatMap fun opt =>
          serializeYamlEntry (keyText opt.1) 2 ((gameChanges.lookup (opt.1.asStr.getD "")).getD opt.2)) ++
        let seenKeys := gameMap.map fun opt => opt.1.asStr.getD ""
        ((arrange topKeyStr gameChanges).filter fun c => !seenKeys.contains c.1).flatMap fun c =>
          serializeYamlEntry c.1.toList 2 c.2
      | none => serializeYamlValue 2 e.2

/-- `load` finds the documents of a text. -/
def setYamlValues (load : String → Option (List Value)) (arrange : Arrangement) (yaml : Value) (changes : YamlChanges) :
    Value :=
  match yaml.asMapping with
  | none => yaml
  | some topMap =>
    let rebuilt := String.ofList (['\n'].intercalate (topMap.flatMap (topLines arrange changes)))
    ((load rebuilt).bind List.getLast?).getD yaml

/-! ## What is read back -/

/-- What is read of the text of a value on one line. -/
def inlineScalar : Value → Scalar
  | .string s => .string s
  | v => plainScalar (yamlValueToInline v)

mutual

/-- What is read of a value that is written and read again. -/
def reread : Value → Value
  | .mapping entries => if entries.isEmpty then .null else .mapping (rereadEntries entries)
  | .sequence items => if items.isEmpty then .null else .sequence (items.map fun item => (inlineScalar item).value)
  | v => (inlineScalar v).value

def rereadEntries : List (Value × Value) → List (Value × Value)
  | [] => []
  | (k, v) :: rest => ((plainScalar (keyText k)).value, reread v) :: rereadEntries rest

end

/-- A text on one line. -/
def inlineWritable : Value → Bool
  | .string s => s.toList.all BlockText.quotable
  | _ => true

mutual

/-- Each key and each text can stand on its line, and keys that stand together are read as different ones. -/
def writable : Value → Bool
  | .mapping entries =>
    decide ((entries.map fun e => plainScalar (keyText e.1)).Nodup) && writableEntries entries
  | .sequence items => items.all inlineWritable
  | v => inlineWritable v

def writableEntries : List (Value × Value) → Bool
  | [] => true
  | (k, v) :: rest => BlockText.isKey (keyText k) && writable v && writableEntries rest

end

/-- What is read back is a scalar, a sequence of scalars, or a mapping of what was itself read back. -/
lemma reread_shape (v : Value) :
    (∃ s : Scalar, reread v = s.value) ∨ (∃ ss : List Scalar, reread v = .sequence (ss.map Scalar.value)) ∨
      ∃ entries, reread v = .mapping (rereadEntries entries) := by
  cases v with
  | mapping entries =>
    rw [reread]
    split
    · exact .inl ⟨.null, rfl⟩
    · exact .inr (.inr ⟨entries, rfl⟩)
  | sequence items =>
    rw [reread]
    split
    · exact .inl ⟨.null, rfl⟩
    · refine .inr (.inl ⟨items.map inlineScalar, ?_⟩)
      rw [List.map_map]
      rfl
  | null => exact .inl ⟨inlineScalar .null, rfl⟩
  | boolean b => exact .inl ⟨inlineScalar (.boolean b), rfl⟩
  | integer i => exact .inl ⟨inlineScalar (.integer i), rfl⟩
  | floatingPoint f => exact .inl ⟨inlineScalar (.floatingPoint f), rfl⟩
  | string s => exact .inl ⟨inlineScalar (.string s), rfl⟩
  | bad => exact .inl ⟨inlineScalar .bad, rfl⟩

/-! ## Texts of numbers and truth values -/

/-- A sign, if there is one, and letters, digits and points after it, of which the first is no point. -/
def IsWord (l : List Char) : Prop :=
  ∃ sign c rest, l = sign ++ c :: rest ∧ (sign = [] ∨ sign = ['-']) ∧ c.isAlphanum = true ∧
    ∀ d ∈ rest, d.isAlphanum = true ∨ d = '.'

lemma wordChars_of_all {l : List Char} (all : l.all (fun d => d.isAlphanum || d == '.') = true) :
    ∀ d ∈ l, d.isAlphanum = true ∨ d = '.' := by
  intro d mem
  simpa using List.all_eq_true.mp all d mem

lemma isAlphanum_ne {c d : Char} (alnum : c.isAlphanum = true) (other : d.isAlphanum = false) : c ≠ d := by
  intro h
  rw [h, other] at alnum
  cases alnum

lemma printable_of_isAlphanum {c : Char} (alnum : c.isAlphanum = true) : BlockText.printable c = true := by
  simp only [Char.isAlphanum, Char.isAlpha, Char.isUpper, Char.isLower, Char.isDigit, Bool.or_eq_true,
    Bool.and_eq_true, decide_eq_true_eq, ge_iff_le, UInt32.le_iff_toNat_le] at alnum
  simp only [BlockText.printable, Bool.or_eq_true, Bool.and_eq_true, decide_eq_true_eq]
  left
  simp at alnum
  omega

/-- A text without a colon and without a blank is plain after its start. -/
lemma plainRest_of_notMem {l : List Char} (colon : ':' ∉ l) (blank : ∀ c ∈ l, BlockText.isBlank c = false) :
    BlockText.plainRest l = true := by
  induction l with
  | nil => rfl
  | cons c l ih =>
    obtain ⟨noColon, colon⟩ := List.ne_and_not_mem_of_not_mem_cons colon
    obtain ⟨noBlank, blank⟩ := List.forall_mem_cons.mp blank
    cases l with
    | nil => rw [BlockText.plainRest, noBlank, Bool.not_false]
    | cons d l =>
      rw [BlockText.plainRest, beq_eq_false_iff_ne.mpr noColon.symm, noBlank, ih colon blank]
      rfl

lemma isBlank_of_isAlphanum {c : Char} (alnum : c.isAlphanum = true) : BlockText.isBlank c = false := by
  have noSpace : c ≠ ' ' := isAlphanum_ne alnum (by decide)
  have noTab : c ≠ '\t' := isAlphanum_ne alnum (by decide)
  rw [BlockText.isBlank, beq_eq_false_iff_ne.mpr noSpace, beq_eq_false_iff_ne.mpr noTab, Bool.or_false]

lemma plainStart_of_isAlphanum {c : Char} (alnum : c.isAlphanum = true) (rest : List Char) :
    BlockText.plainStart (c :: rest) = true ∧ BlockText.plainStart ('-' :: c :: rest) = true := by
  have noBlank := isBlank_of_isAlphanum alnum
  have outside : BlockText.indicators.contains c = false ∧ ['-', '?', ':'].contains c = false := by
    have none : (BlockText.indicators ++ ['-', '?', ':']).any Char.isAlphanum = false := by decide
    have others : ∀ d ∈ BlockText.indicators ++ ['-', '?', ':'], d.isAlphanum = false :=
      fun d mem => Bool.eq_false_iff.mpr (List.any_eq_false.mp none d mem)
    constructor
    · simp only [List.contains_eq_mem, decide_eq_false_iff_not]
      exact fun mem => isAlphanum_ne alnum (others c (List.mem_append_left _ mem)) rfl
    · simp only [List.contains_eq_mem, decide_eq_false_iff_not]
      exact fun mem => isAlphanum_ne alnum (others c (List.mem_append_right _ mem)) rfl
  constructor
  · cases rest with
    | nil =>
      rw [BlockText.plainStart, outside.1, outside.2]
      simp [noBlank]
    | cons d rest =>
      rw [BlockText.plainStart, outside.1, outside.2]
      simp [noBlank]
  · have dash : BlockText.isBlank '-' = false := by decide
    simp [BlockText.plainStart, noBlank, dash, BlockText.indicators]

lemma isPlain_of_isWord {l : List Char} (word : IsWord l) : BlockText.isPlain l = true := by
  obtain ⟨sign, c, rest, rfl, minus, alnum, letters⟩ := word
  have chars : ∀ d ∈ sign ++ c :: rest, d.isAlphanum = true ∨ d = '.' ∨ d = '-' := by
    intro d mem
    rcases List.mem_append.mp mem with mem | mem
    · rcases minus with rfl | rfl
      · cases mem
      · exact .inr (.inr (List.mem_singleton.mp mem))
    · rcases List.mem_cons.mp mem with rfl | mem
      · exact .inl alnum
      · exact (letters d mem).imp id .inl
  have absent : ∀ d : Char, d.isAlphanum = false → d ≠ '.' → d ≠ '-' → d ∉ sign ++ c :: rest := by
    intro d other noPoint noDash mem
    rcases chars d mem with alnum | point | dash
    · exact isAlphanum_ne alnum other rfl
    · exact noPoint point
    · exact noDash dash
  have fine : (sign ++ c :: rest).all BlockText.printable = true := by
    refine List.all_eq_true.mpr fun d mem => ?_
    rcases chars d mem with alnum | rfl | rfl
    · exact printable_of_isAlphanum alnum
    · decide
    · decide
  have starts : BlockText.plainStart (sign ++ c :: rest) = true := by
    rcases minus with rfl | rfl
    · exact (plainStart_of_isAlphanum alnum rest).1
    · exact (plainStart_of_isAlphanum alnum rest).2
  have notMarker : BlockText.isMarker (sign ++ c :: rest) = false := by
    have noDash : c ≠ '-' := isAlphanum_ne alnum (by decide)
    have noPoint : c ≠ '.' := isAlphanum_ne alnum (by decide)
    rcases minus with rfl | rfl
    · simp [BlockText.isMarker, noDash, noPoint]
    · simp [BlockText.isMarker, noDash]
  have noColon : ':' ∉ sign ++ c :: rest := absent ':' (by decide) (by decide) (by decide)
  have calm : BlockText.plainRest (sign ++ c :: rest) = true := by
    refine plainRest_of_notMem noColon fun d mem => ?_
    rcases chars d mem with alnum | rfl | rfl
    · exact isBlank_of_isAlphanum alnum
    · decide
    · decide
  have last : ((sign ++ c :: rest).getLast? != some ':') = true :=
    bne_iff_ne.mpr fun h => noColon (List.mem_of_getLast? h)
  rw [BlockText.isPlain, fine, starts, notMarker, calm, last]
  rfl

lemma isDigit_of_toDigits {n : ℕ} {c : Char} (mem : c ∈ Nat.toDigits 10 n) : c.isDigit = true :=
  Nat.isDigit_of_mem_toDigits (by decide) (by decide) mem

lemma isAlphanum_of_isDigit {c : Char} (digit : c.isDigit = true) : c.isAlphanum = true := by
  rw [Char.isAlphanum, digit, Bool.or_true]

/-- Digits with points after the first of them are a word, also after a sign. -/
lemma isWord_of_digits {sign l : List Char} (minus : sign = [] ∨ sign = ['-']) (nonempty : l ≠ [])
    (first : ∀ c ∈ l.head?, c.isDigit = true) (digits : ∀ c ∈ l, c.isDigit = true ∨ c = '.') : IsWord (sign ++ l) := by
  cases l with
  | nil => exact (nonempty rfl).elim
  | cons c rest =>
    refine ⟨sign, c, rest, rfl, minus, isAlphanum_of_isDigit (first c rfl), fun d mem => ?_⟩
    exact (digits d (List.mem_cons_of_mem c mem)).imp isAlphanum_of_isDigit id

lemma toDigits_head (n : ℕ) : Nat.toDigits 10 n ≠ [] ∧ ∀ c ∈ (Nat.toDigits 10 n).head?, c.isDigit = true :=
  ⟨Nat.toDigits_ne_nil, fun _ here => isDigit_of_toDigits (List.mem_of_mem_head? here)⟩

lemma isWord_integer (i : ℤ) : IsWord (toString i).toList := by
  cases i with
  | ofNat n =>
    have text : (toString (Int.ofNat n)).toList = [] ++ Nat.toDigits 10 n := Nat.toList_repr
    rw [text]
    obtain ⟨nonempty, first⟩ := toDigits_head n
    exact isWord_of_digits (.inl rfl) nonempty first fun c mem => .inl (isDigit_of_toDigits mem)
  | negSucc n =>
    have text : (toString (Int.negSucc n)).toList = ['-'] ++ Nat.toDigits 10 (n + 1) := by
      rw [← Nat.toList_repr]
      exact String.toList_append
    rw [text]
    obtain ⟨nonempty, first⟩ := toDigits_head (n + 1)
    exact isWord_of_digits (.inr rfl) nonempty first fun c mem => .inl (isDigit_of_toDigits mem)

lemma layOut_digits (n : ℕ) (x : ℤ) :
    F64.layOut n x ≠ [] ∧ (∀ c ∈ (F64.layOut n x).head?, c.isDigit = true) ∧
      ∀ c ∈ F64.layOut n x, c.isDigit = true ∨ c = '.' := by
  have zeros : ∀ k, ∀ c ∈ List.replicate k '0', c.isDigit = true := by
    intro k c mem
    rw [List.eq_of_mem_replicate mem]
    decide
  rw [F64.layOut]
  split
  case isTrue =>
    refine ⟨by simp [Nat.toDigits_ne_nil], ?_, ?_⟩
    · rw [List.head?_append_of_ne_nil _ Nat.toDigits_ne_nil]
      exact (toDigits_head n).2
    · intro c mem
      rcases List.mem_append.mp mem with mem | mem
      · exact .inl (isDigit_of_toDigits mem)
      · exact .inl (zeros _ c mem)
  case isFalse =>
    split
    case isTrue =>
      refine ⟨by simp, ?_, ?_⟩
      · intro c here
        cases here
        decide
      · intro c mem
        rcases List.mem_cons.mp mem with rfl | mem
        · exact .inl (by decide)
        · rcases List.mem_cons.mp mem with rfl | mem
          · exact .inr rfl
          · rcases List.mem_append.mp mem with mem | mem
            · exact .inl (zeros _ c mem)
            · exact .inl (isDigit_of_toDigits mem)
    case isFalse short =>
      have some_left : (Nat.toDigits 10 n).take ((Nat.toDigits 10 n).length - x.natAbs) ≠ [] := by
        rw [Ne, List.take_eq_nil_iff, not_or]
        exact ⟨by omega, Nat.toDigits_ne_nil⟩
      refine ⟨by simp, ?_, ?_⟩
      · rw [List.head?_append_of_ne_nil _ some_left]
        exact fun c here => isDigit_of_toDigits (List.mem_of_mem_take (List.mem_of_mem_head? here))
      · intro c mem
        rcases List.mem_append.mp mem with mem | mem
        · exact .inl (isDigit_of_toDigits (List.mem_of_mem_take mem))
        · rcases List.mem_cons.mp mem with rfl | mem
          · exact .inr rfl
          · exact .inl (isDigit_of_toDigits (List.mem_of_mem_drop mem))

lemma isWord_text (f : F64) : IsWord f.text := by
  cases f with
  | finite q =>
    rw [F64.text]
    split
    case isTrue => exact ⟨[], '0', [], rfl, .inl rfl, by decide, by simp⟩
    case isFalse =>
      split
      case isTrue =>
        obtain ⟨nonempty, first, digits⟩ := layOut_digits (F64.shortest (-q)).1 (F64.shortest (-q)).2
        exact isWord_of_digits (.inr rfl) nonempty first digits
      case isFalse =>
        obtain ⟨nonempty, first, digits⟩ := layOut_digits (F64.shortest q).1 (F64.shortest q).2
        exact isWord_of_digits (.inl rfl) nonempty first digits
  | infinite negative =>
    cases negative with
    | false => exact ⟨[], 'i', ['n', 'f'], rfl, .inl rfl, by decide, wordChars_of_all (by decide)⟩
    | true => exact ⟨['-'], 'i', ['n', 'f'], rfl, .inr rfl, by decide, wordChars_of_all (by decide)⟩
  | nan => exact ⟨[], 'N', ['a', 'N'], rfl, .inl rfl, by decide, wordChars_of_all (by decide)⟩

/-- Whatever is no text is written as a word. -/
lemma isWord_inline {v : Value} (noText : v.asStr = none) : IsWord (yamlValueToInline v) := by
  have null : IsWord "null".toList := ⟨[], 'n', ['u', 'l', 'l'], rfl, .inl rfl, by decide, wordChars_of_all (by decide)⟩
  cases v with
  | string s => cases noText
  | boolean b =>
    cases b with
    | false => exact ⟨[], 'f', ['a', 'l', 's', 'e'], rfl, .inl rfl, by decide, wordChars_of_all (by decide)⟩
    | true => exact ⟨[], 't', ['r', 'u', 'e'], rfl, .inl rfl, by decide, wordChars_of_all (by decide)⟩
  | integer i => exact isWord_integer i
  | floatingPoint f => exact isWord_text f
  | null => exact null
  | sequence items => exact null
  | mapping entries => exact null
  | bad => exact null

/-! ## Texts on one line -/

/-- Replacing the backslashes and then the quotes escapes both. -/
lemma replaceChar_escape (l : List Char) :
    replaceChar '"' ['\\', '"'] (replaceChar '\\' ['\\', '\\'] l) = BlockText.escape l := by
  rw [replaceChar, replaceChar, List.flatMap_assoc, BlockText.escape]
  apply List.flatMap_congr
  intro c _
  split
  case isTrue backslash =>
    rw [backslash]
    rfl
  case isFalse other =>
    rw [List.flatMap_singleton]
    split
    case isTrue quote =>
      rw [quote]
      rfl
    case isFalse noQuote => rw [if_neg (not_or.mpr ⟨other, noQuote⟩)]

lemma inlineScalar_of_noText {v : Value} (noText : v.asStr = none) :
    inlineScalar v = plainScalar (yamlValueToInline v) := by
  cases v with
  | string s => cases noText
  | _ => rfl

/-- What stands on one line is read as it should be. -/
lemma readScalar_inline {v : Value} (fine : inlineWritable v = true) :
    BlockText.readScalar valueReading (yamlValueToInline v) = some (inlineScalar v) ∧
      BlockText.readContent valueReading (yamlValueToInline v) = some (.scalar (inlineScalar v)) ∧
      (yamlValueToInline v).head? ≠ some ' ' := by
  cases text : v.asStr with
  | some s =>
    cases v with
    | string s =>
      have back : valueReading.quoted s.toList = inlineScalar (.string s) :=
        congrArg Scalar.string String.ofList_toList
      rw [yamlValueToInline, replaceChar_escape, ← back]
      exact ⟨BlockText.readScalar_quoted _ fine, BlockText.readContent_quoted fine, by simp⟩
    | _ => cases text
  | none =>
    have plain := isPlain_of_isWord (isWord_inline text)
    rw [inlineScalar_of_noText text]
    refine ⟨BlockText.readScalar_plain _ plain, BlockText.readContent_plain plain, ?_⟩
    exact (BlockText.plainStart_head (BlockText.isPlain_start plain)).2.1

/-! ## What is written is read back -/

/-- The texts are read as these lines. -/
def ReadAs (texts : List (List Char)) (lines : List (Line Scalar)) : Prop :=
  texts.mapM (BlockText.readLine valueReading) = some lines

lemma ReadAs.cons {t : List Char} {l : Line Scalar} {texts : List (List Char)} {lines : List (Line Scalar)}
    (here : BlockText.readLine valueReading t = some l) (there : ReadAs texts lines) :
    ReadAs (t :: texts) (l :: lines) := by
  rw [ReadAs, List.mapM_cons, here, there]
  rfl

lemma ReadAs.append {texts texts' : List (List Char)} {lines lines' : List (Line Scalar)}
    (before : ReadAs texts lines) (after : ReadAs texts' lines') : ReadAs (texts ++ texts') (lines ++ lines') := by
  rw [ReadAs, List.mapM_append, before, after]
  rfl

lemma ReadAs.flatMap {A : Type} {l : List A} {f : A → List (List Char)} {g : A → List (Line Scalar)}
    (each : ∀ a ∈ l, ReadAs (f a) (g a)) : ReadAs (l.flatMap f) (l.flatMap g) := by
  induction l with
  | nil => rfl
  | cons a l ih =>
    obtain ⟨here, there⟩ := List.forall_mem_cons.mp each
    exact here.append (ih there)

lemma readAs_map {A : Type} {l : List A} {f : A → List Char} {g : A → Line Scalar}
    (each : ∀ a ∈ l, BlockText.readLine valueReading (f a) = some (g a)) : ReadAs (l.map f) (l.map g) := by
  induction l with
  | nil => rfl
  | cons a l ih =>
    obtain ⟨here, there⟩ := List.forall_mem_cons.mp each
    exact ReadAs.cons here (ih there)

lemma readLine_key {key : List Char} (isKey : BlockText.isKey key = true) (indent : ℕ) :
    BlockText.readLine valueReading (List.replicate indent ' ' ++ key ++ [':']) =
      some (indent, .key (plainScalar key)) := by
  rw [List.append_assoc]
  apply BlockText.readLine_indented
  · exact (BlockText.key_head isKey []).2.1
  · exact BlockText.readContent_key isKey

lemma readLine_pair {key : List Char} {v : Value} (isKey : BlockText.isKey key = true)
    (fine : inlineWritable v = true) (indent : ℕ) :
    BlockText.readLine valueReading (List.replicate indent ' ' ++ key ++ ": ".toList ++ yamlValueToInline v) =
      some (indent, .pair (plainScalar key) (inlineScalar v)) := by
  rw [List.append_assoc, List.append_assoc]
  apply BlockText.readLine_indented
  · exact (BlockText.key_head isKey (' ' :: yamlValueToInline v)).2.1
  · exact BlockText.readContent_pair isKey (readScalar_inline fine).1

lemma readLine_item {v : Value} (fine : inlineWritable v = true) (indent : ℕ) :
    BlockText.readLine valueReading (List.replicate indent ' ' ++ "- ".toList ++ yamlValueToInline v) =
      some (indent, .item (inlineScalar v)) := by
  rw [List.append_assoc]
  apply BlockText.readLine_indented
  · exact fun h => absurd (Option.some.inj h) (by decide)
  · exact BlockText.readContent_item (readScalar_inline fine).1

lemma readLine_scalar {v : Value} (fine : inlineWritable v = true) (indent : ℕ) :
    BlockText.readLine valueReading (List.replicate indent ' ' ++ yamlValueToInline v) =
      some (indent, .scalar (inlineScalar v)) :=
  BlockText.readLine_indented indent (readScalar_inline fine).2.2 (readScalar_inline fine).2.1

lemma rereadEntries_eq (entries : List (Value × Value)) :
    rereadEntries entries = entries.map fun e => ((plainScalar (keyText e.1)).value, reread e.2) := by
  induction entries with
  | nil => rfl
  | cons e rest ih =>
    obtain ⟨k, v⟩ := e
    rw [rereadEntries, ih]
    rfl

/-- The lines of the items of a sequence are read as the sequence. -/
lemma reads_sequence {items : List Value} (fine : items.all inlineWritable = true) (indent : ℕ) :
    ReadAs (serializeYamlValue indent (.sequence items)) (items.map fun item => (indent, .item (inlineScalar item))) ∧
      Reads valueReading (items.map fun item => (indent, .item (inlineScalar item))) (reread (.sequence items)) := by
  constructor
  · apply readAs_map
    exact fun item mem => readLine_item (List.all_eq_true.mp fine item mem) indent
  · cases items with
    | nil => exact Reads.blank
    | cons item items =>
      have reads : Reads valueReading _ _ :=
        Reads.items indent (List.cons_ne_nil (inlineScalar item) (items.map inlineScalar))
      rw [← List.map_cons, List.map_map] at reads
      have same : reread (.sequence (item :: items)) = valueReading.items ((item :: items).map inlineScalar) := by
        change Value.sequence _ = Value.sequence _
        rw [List.map_map]
        rfl
      rw [same]
      exact reads

/-- Lines for the entries of a mapping, each with the key and the value that are read. -/
def EntriesReadAs (indent : ℕ) (texts : List (List Char)) (read : List (Scalar × Value)) : Prop :=
  ∃ es : List (List (Line Scalar) × Scalar × Value), ReadAs texts (es.flatMap Prod.fst) ∧
    (∀ e ∈ es, EntryReads valueReading indent e.1 e.2) ∧ es.map Prod.snd = read

/-- What is read of the lines of a mapping's entries, which are all indented. -/
lemma EntriesReadAs.reads {indent : ℕ} {texts : List (List Char)} {entries : List (Value × Value)}
    (each : EntriesReadAs indent texts (entries.map fun e => (plainScalar (keyText e.1), reread e.2)))
    (distinct : (entries.map fun e => plainScalar (keyText e.1)).Nodup) :
    ∃ lines, ReadAs texts lines ∧ Reads valueReading lines (reread (.mapping entries)) ∧ ∀ l ∈ lines, indent ≤ l.1 := by
  obtain ⟨es, readAs, each, read⟩ := each
  refine ⟨es.flatMap Prod.fst, readAs, ?_, ?_⟩
  · cases entries with
    | nil =>
      rw [List.map_nil, List.map_eq_nil_iff] at read
      rw [read]
      exact Reads.blank
    | cons e rest =>
      have nonempty : es ≠ [] := by
        intro h
        rw [h] at read
        cases read
      have keys : (es.map fun e => e.2.1) = (e :: rest).map fun e => plainScalar (keyText e.1) := by
        have both := congrArg (List.map Prod.fst) read
        rw [List.map_map, List.map_map] at both
        exact both
      have reads := Reads.entries nonempty each (keys ▸ distinct)
      have same : reread (.mapping (e :: rest)) = valueReading.entries (es.map Prod.snd) := by
        rw [reread, List.isEmpty_cons, if_neg Bool.false_ne_true, rereadEntries_eq, read]
        change _ = Value.mapping _
        rw [List.map_map]
        rfl
      rw [same]
      exact reads
  · intro l mem
    obtain ⟨e, inside, mem⟩ := List.mem_flatMap.mp mem
    obtain ⟨content, body, lines, _, _, deeper⟩ := (each e inside).lines
    rw [lines] at mem
    rcases List.mem_cons.mp mem with rfl | mem
    · exact Nat.le_refl indent
    · exact Nat.le_of_lt (deeper l mem)

/-- The line with a key and the lines below it. -/
lemma readAs_under {key : List Char} (isKey : BlockText.isKey key = true) (indent : ℕ) {v : Value}
    {texts : List (List Char)}
    (body : ∃ lines, ReadAs texts lines ∧ Reads valueReading lines v ∧ ∀ l ∈ lines, indent + 2 ≤ l.1) :
    ∃ lines, ReadAs ((List.replicate indent ' ' ++ key ++ [':']) :: texts) lines ∧
      EntryReads valueReading indent lines (plainScalar key, v) := by
  obtain ⟨lines, readAs, reads, deeper⟩ := body
  refine ⟨(indent, .key (plainScalar key)) :: lines, readAs.cons (readLine_key isKey indent), ?_⟩
  apply EntryReads.under
  · exact fun l mem => Nat.lt_of_lt_of_le (by omega) (deeper l mem)
  · exact reads

lemma EntriesReadAs.nil (indent : ℕ) : EntriesReadAs indent [] [] := ⟨[], rfl, by simp, rfl⟩

lemma EntriesReadAs.cons {indent : ℕ} {texts texts' : List (List Char)} {e : Scalar × Value}
    {read : List (Scalar × Value)}
    (here : ∃ lines, ReadAs texts lines ∧ EntryReads valueReading indent lines e)
    (there : EntriesReadAs indent texts' read) : EntriesReadAs indent (texts ++ texts') (e :: read) := by
  obtain ⟨lines, readAs, entry⟩ := here
  obtain ⟨es, readAs', each, rfl⟩ := there
  refine ⟨(lines, e) :: es, readAs.append readAs', ?_, rfl⟩
  exact List.forall_mem_cons.mpr ⟨entry, each⟩

lemma writable_mapping {entries : List (Value × Value)} (fine : writable (.mapping entries) = true) :
    (entries.map fun e => plainScalar (keyText e.1)).Nodup ∧ writableEntries entries = true := by
  rw [writable, Bool.and_eq_true, decide_eq_true_eq] at fine
  exact fine

lemma reads_pair {v : Value} (fine : inlineWritable v = true) {key : List Char}
    (isKey : BlockText.isKey key = true) (indent : ℕ)
    (written : serializeYamlEntry key indent v =
      [List.replicate indent ' ' ++ key ++ ": ".toList ++ yamlValueToInline v])
    (read : reread v = (inlineScalar v).value) :
    ∃ lines, ReadAs (serializeYamlEntry key indent v) lines ∧
      EntryReads valueReading indent lines (plainScalar key, reread v) := by
  rw [written, read]
  refine ⟨[(indent, .pair (plainScalar key) (inlineScalar v))], ?_, EntryReads.pair _ _⟩
  exact ReadAs.cons (readLine_pair isKey fine indent) rfl

mutual

/-- The lines of an entry are read as its key and its value. -/
lemma reads_entry : ∀ (v : Value), writable v = true → ∀ (key : List Char), BlockText.isKey key = true → ∀ indent,
    ∃ lines, ReadAs (serializeYamlEntry key indent v) lines ∧
      EntryReads valueReading indent lines (plainScalar key, reread v)
  | .mapping entries, fine, key, isKey, indent => by
    obtain ⟨distinct, each⟩ := writable_mapping fine
    rw [serializeYamlEntry]
    apply readAs_under isKey
    exact (reads_entries entries each (indent + 2)).reads distinct
  | .sequence items, fine, key, isKey, indent => by
    have body := reads_sequence fine (indent + 2)
    have deeper : ∀ item : Value, List.replicate indent ' ' ++ "  - ".toList ++ yamlValueToInline item =
        List.replicate (indent + 2) ' ' ++ "- ".toList ++ yamlValueToInline item := by
      intro item
      rw [List.replicate_add, List.append_assoc _ (List.replicate 2 ' ')]
      rfl
    rw [serializeYamlEntry]
    simp only [deeper]
    apply readAs_under isKey
    refine ⟨_, body.1, body.2, fun l mem => ?_⟩
    obtain ⟨item, _, rfl⟩ := List.mem_map.mp mem
    exact Nat.le_refl _
  | .null, fine, key, isKey, indent => reads_pair (v := .null) fine isKey indent rfl rfl
  | .boolean b, fine, key, isKey, indent => reads_pair (v := .boolean b) fine isKey indent rfl rfl
  | .integer i, fine, key, isKey, indent => reads_pair (v := .integer i) fine isKey indent rfl rfl
  | .floatingPoint f, fine, key, isKey, indent => reads_pair (v := .floatingPoint f) fine isKey indent rfl rfl
  | .string s, fine, key, isKey, indent => reads_pair (v := .string s) fine isKey indent rfl rfl
  | .bad, fine, key, isKey, indent => reads_pair (v := .bad) fine isKey indent rfl rfl

lemma reads_entries : ∀ (entries : List (Value × Value)), writableEntries entries = true → ∀ indent,
    EntriesReadAs indent (serializeYamlEntries indent entries)
      (entries.map fun e => (plainScalar (keyText e.1), reread e.2))
  | [], _, indent => EntriesReadAs.nil indent
  | (k, v) :: rest, fine, indent => by
    rw [writableEntries, Bool.and_eq_true, Bool.and_eq_true] at fine
    rw [serializeYamlEntries]
    apply EntriesReadAs.cons
    · exact reads_entry v fine.1.2 (keyText k) fine.1.1 indent
    · exact reads_entries rest fine.2 indent

end

/-- The lines of a value are read as this value. -/
lemma reads_value {v : Value} (fine : writable v = true) (indent : ℕ) :
    ∃ lines, ReadAs (serializeYamlValue indent v) lines ∧ Reads valueReading lines (reread v) ∧
      ∀ l ∈ lines, indent ≤ l.1 := by
  have line : inlineWritable v = true →
      serializeYamlValue indent v = [List.replicate indent ' ' ++ yamlValueToInline v] →
      reread v = (inlineScalar v).value →
      ∃ lines, ReadAs (serializeYamlValue indent v) lines ∧ Reads valueReading lines (reread v) ∧
        ∀ l ∈ lines, indent ≤ l.1 := by
    intro fine written read
    rw [written, read]
    refine ⟨_, ReadAs.cons (readLine_scalar fine indent) rfl, Reads.scalar indent (inlineScalar v), fun l mem => ?_⟩
    rw [List.mem_singleton.mp mem]
  cases v with
  | mapping entries =>
    obtain ⟨distinct, each⟩ := writable_mapping fine
    exact (reads_entries entries each indent).reads distinct
  | sequence items =>
    refine ⟨_, (reads_sequence fine indent).1, (reads_sequence fine indent).2, fun l mem => ?_⟩
    obtain ⟨item, _, rfl⟩ := List.mem_map.mp mem
    exact Nat.le_refl _
  | _ => exact line fine rfl rfl

/-! ## The document with its changes -/

/-- A section with its changes, before it is written. -/
def changeSection (arrange : Arrangement) (changes : YamlChanges) (e : Value × Value) : Value :=
  let topKeyStr := e.1.asStr.getD ""
  let gameChanges := changes.ofGame topKeyStr
  if gameChanges.isEmpty then e.2
  else
    match e.2.asMapping with
    | some gameMap =>
      .mapping (gameMap.map (fun opt => (opt.1, (gameChanges.lookup (opt.1.asStr.getD "")).getD opt.2)) ++
        ((arrange topKeyStr gameChanges).filter fun c =>
          !(gameMap.map fun opt => opt.1.asStr.getD "").contains c.1).map fun c => (.string c.1, c.2))
    | none => e.2

/-- The document with its changes, before it is written. -/
def changeDocument (arrange : Arrangement) (changes : YamlChanges) (topMap : List (Value × Value)) :
    List (Value × Value) :=
  topMap.map fun e => (e.1, changeSection arrange changes e)

lemma serializeYamlEntries_eq (indent : ℕ) (entries : List (Value × Value)) :
    serializeYamlEntries indent entries = entries.flatMap fun e => serializeYamlEntry (keyText e.1) indent e.2 := by
  induction entries with
  | nil => rfl
  | cons e rest ih =>
    obtain ⟨k, v⟩ := e
    rw [serializeYamlEntries, ih, List.flatMap_cons]

/-- The lines of a section are those of the changed section. -/
lemma topLines_eq (arrange : Arrangement) (changes : YamlChanges) (e : Value × Value) :
    topLines arrange changes e =
      (keyText e.1 ++ [':']) :: serializeYamlValue 2 (changeSection arrange changes e) := by
  rw [topLines, changeSection, keyText]
  split
  case isTrue => rfl
  case isFalse =>
    cases e.2.asMapping with
    | none => rfl
    | some gameMap =>
      simp only [serializeYamlValue, serializeYamlEntries_eq, List.flatMap_append, List.flatMap_map]
      rfl

/-- A document with changes is read back as it was written. -/
theorem setYamlValues_of_writable {load : String → Option (List Value)}
    (reads : ∀ text v, readDocument text = some v → load text = some [v]) (arrange : Arrangement)
    {topMap : List (Value × Value)} (nonempty : topMap ≠ []) (changes : YamlChanges)
    (fine : writable (.mapping (changeDocument arrange changes topMap)) = true) :
    setYamlValues load arrange (.mapping topMap) changes =
      reread (.mapping (changeDocument arrange changes topMap)) := by
  obtain ⟨distinct, each⟩ := writable_mapping fine
  have all : EntriesReadAs 0 (topMap.flatMap (topLines arrange changes))
      ((changeDocument arrange changes topMap).map fun e => (plainScalar (keyText e.1), reread e.2)) := by
    clear nonempty fine distinct
    induction topMap with
    | nil => exact EntriesReadAs.nil 0
    | cons e rest ih =>
      rw [changeDocument, List.map_cons, writableEntries, Bool.and_eq_true, Bool.and_eq_true] at each
      rw [List.flatMap_cons, topLines_eq, changeDocument, List.map_cons, List.map_cons]
      apply EntriesReadAs.cons
      · exact readAs_under each.1.1 0 (reads_value each.1.2 2)
      · exact ih each.2
  obtain ⟨lines, readAs, read, _⟩ := all.reads distinct
  have some_line : topMap.flatMap (topLines arrange changes) ≠ [] := by
    cases topMap with
    | nil => exact (nonempty rfl).elim
    | cons e rest =>
      rw [List.flatMap_cons, topLines_eq]
      exact List.cons_ne_nil _ _
  have document : readDocument (String.ofList (['\n'].intercalate (topMap.flatMap (topLines arrange changes)))) =
      some (reread (.mapping (changeDocument arrange changes topMap))) := by
    rw [readDocument, String.toList_ofList]
    exact BlockText.readText_of_reads some_line readAs read
  simp only [setYamlValues, Value.asMapping, reads _ _ document]
  rfl

end ArchipelagoXL.Tools
