import Mathlib

/-!
# Web addresses

The part of the URL standard that decides where an `http` or `https` address leads: percent-encoding,
the path of an address (its separators, dot segments and end), its query and its fragment. A text is
the list of its bytes in UTF-8. Every byte the scanner looks for is ASCII, so that scanning bytes and
scanning characters is the same.

The main result, `parsePath_exact`, is about a path written by joining segments with slashes: what is
read back is the segments that were joined exactly if each of them fits in one segment.
-/

namespace ArchipelagoXL.WebUrl

abbrev Text := List UInt8

/-- The bytes of an ASCII text. -/
def ascii (s : String) : Text := s.toList.map Char.toUInt8

/-! ## Percent-encoding -/

def isHex (b : UInt8) : Bool :=
  (48 ≤ b && b ≤ 57) || (65 ≤ b && b ≤ 70) || (97 ≤ b && b ≤ 102)

/-- The value of a hexadecimal digit. -/
def hexValue (b : UInt8) : ℕ :=
  if b ≤ 57 then b.toNat - 48 else if b ≤ 70 then b.toNat - 55 else b.toNat - 87

/-- An upper-case hexadecimal digit. -/
def hexDigit (n : ℕ) : UInt8 := UInt8.ofNat (if n < 10 then 48 + n else 55 + n)

/-- A byte as `%` and two digits. -/
def escape (b : UInt8) : Text := [37, hexDigit (b.toNat / 16), hexDigit (b.toNat % 16)]

/-- Writes the bytes of a set as escapes. -/
def percentEncode (set : UInt8 → Bool) (t : Text) : Text :=
  t.flatMap fun b => if set b then escape b else [b]

/-- Reads the escapes of a text; a `%` without two digits after it stands for itself. -/
def percentDecode : Text → Text
  | [] => []
  | a :: b :: c :: rest =>
    if a == 37 && isHex b && isHex c then
      UInt8.ofNat (16 * hexValue b + hexValue c) :: percentDecode rest
    else a :: percentDecode (b :: c :: rest)
  | a :: rest => a :: percentDecode rest

/-- Whether the text begins with an escape. -/
def startsEscape : Text → Bool
  | a :: b :: c :: _ => a == 37 && isHex b && isHex c
  | _ => false

/-- Whether there is an escape in the text. -/
def hasEscape : Text → Bool
  | [] => false
  | a :: rest => startsEscape (a :: rest) || hasEscape rest

@[simp] lemma percentDecode_nil : percentDecode [] = [] := rfl

lemma percentDecode_cons {a : UInt8} {rest : Text} (plain : startsEscape (a :: rest) = false) :
    percentDecode (a :: rest) = a :: percentDecode rest := by
  match rest with
  | [] => rfl
  | [b] => rfl
  | b :: c :: rest =>
    simp only [startsEscape] at plain
    rw [percentDecode, plain]
    rfl

lemma hexDigit_spec : ∀ n < 16, isHex (hexDigit n) = true ∧ hexValue (hexDigit n) = n := by decide

/-- An escape is read as the byte it was written for. -/
@[simp] lemma percentDecode_escape (b : UInt8) (rest : Text) :
    percentDecode (escape b ++ rest) = b :: percentDecode rest := by
  have small : b.toNat < 256 := b.toNat_lt
  obtain ⟨hexHigh, high⟩ := hexDigit_spec (b.toNat / 16) (by omega)
  obtain ⟨hexLow, low⟩ := hexDigit_spec (b.toNat % 16) (by omega)
  have value : UInt8.ofNat (16 * (b.toNat / 16) + b.toNat % 16) = b := by
    rw [Nat.div_add_mod, UInt8.ofNat_toNat]
  simp [escape, percentDecode, hexHigh, hexLow, high, low, value]

/-- Decoding a text with an escape makes it shorter. -/
lemma percentDecode_length (t : Text) :
    (percentDecode t).length + (if hasEscape t then 1 else 0) ≤ t.length := by
  induction t using percentDecode.induct with
  | case1 => simp [hasEscape]
  | case2 a b c rest starts ih =>
    rw [percentDecode, if_pos starts]
    simp only [List.length_cons]
    split <;> split at ih <;> omega
  | case3 a b c rest plain ih =>
    have plain : startsEscape (a :: b :: c :: rest) = false := by simpa [startsEscape] using plain
    rw [percentDecode_cons plain, hasEscape, plain, Bool.false_or, List.length_cons, List.length_cons]
    omega
  | case4 a rest short ih =>
    have plain : startsEscape (a :: rest) = false := by
      match rest with
      | [] => rfl
      | [b] => rfl
      | b :: c :: rest => exact (short b c rest rfl).elim
    rw [percentDecode_cons plain]
    simp only [List.length_cons, hasEscape, plain, Bool.false_or]
    omega

/-- A text without escapes is its own decoding. -/
lemma percentDecode_eq_self {t : Text} (plain : hasEscape t = false) : percentDecode t = t := by
  induction t with
  | nil => rfl
  | cons a rest ih =>
    rw [hasEscape, Bool.or_eq_false_iff] at plain
    rw [percentDecode_cons plain.1, ih plain.2]

@[simp] lemma percentEncode_nil (set : UInt8 → Bool) : percentEncode set [] = [] := rfl

lemma percentEncode_cons (set : UInt8 → Bool) (b : UInt8) (t : Text) :
    percentEncode set (b :: t) = (if set b then escape b else [b]) ++ percentEncode set t := rfl

/-- A set that leaves the `%` and the digits of an escape as they are. -/
def KeepsEscapes (set : UInt8 → Bool) : Prop := set 37 = false ∧ ∀ b, isHex b = true → set b = false

variable {set : UInt8 → Bool}

/-- Encoding makes no escape of a `%` that is not followed by two digits. -/
lemma startsEscape_encode {a : UInt8} {t : Text}
    (plain : startsEscape (a :: t) = false) : startsEscape (a :: percentEncode set t) = false := by
  match t with
  | [] => rfl
  | [b] =>
    rw [percentEncode_cons]
    split
    · simp [escape, startsEscape, show isHex 37 = false from rfl]
    · rfl
  | b :: c :: rest =>
    simp only [startsEscape] at plain
    rw [percentEncode_cons, percentEncode_cons]
    by_cases escapedB : set b = true
    · simp [escapedB, escape, startsEscape, show isHex 37 = false from rfl]
    · by_cases escapedC : set c = true
      · simp [escapedB, escapedC, escape, startsEscape, show isHex 37 = false from rfl]
      · simpa [escapedB, escapedC, startsEscape] using plain

/-- What is decoded is what would be decoded without the encoding. -/
lemma KeepsEscapes.decode_encode (keeps : KeepsEscapes set) (t : Text) :
    percentDecode (percentEncode set t) = percentDecode t := by
  have step : ∀ a rest, startsEscape (a :: rest) = false →
      percentDecode (percentEncode set rest) = percentDecode rest →
      percentDecode (percentEncode set (a :: rest)) = percentDecode (a :: rest) := by
    intro a rest plain ih
    rw [percentDecode_cons plain, percentEncode_cons]
    split
    · rw [percentDecode_escape, ih]
    · rw [List.singleton_append, percentDecode_cons (startsEscape_encode plain), ih]
  induction t using percentDecode.induct with
  | case1 => rfl
  | case2 a b c rest starts ih =>
    have ⟨⟨isPercent, hexB⟩, hexC⟩ : (a = 37 ∧ isHex b = true) ∧ isHex c = true := by simpa using starts
    subst isPercent
    simp only [percentEncode_cons, keeps.1, keeps.2 b hexB, keeps.2 c hexC, if_neg,
      Bool.false_eq_true, not_false_eq_true, List.singleton_append]
    rw [percentDecode, if_pos starts, percentDecode, if_pos starts, ih]
  | case3 a b c rest plain ih => exact step a _ (by simpa [startsEscape] using plain) ih
  | case4 a rest short ih =>
    apply step a rest _ ih
    match rest with
    | [] => rfl
    | [b] => rfl
    | b :: c :: rest => exact (short b c rest rfl).elim

/-- Where the `%` itself is escaped, the text comes back. -/
lemma decode_encode_of_percent (escapes : set 37 = true) (t : Text) :
    percentDecode (percentEncode set t) = t := by
  induction t with
  | nil => rfl
  | cons a rest ih =>
    rw [percentEncode_cons]
    split
    · rw [percentDecode_escape, ih]
    case isFalse kept =>
      have notPercent : (a == 37) = false := by
        rw [beq_eq_false_iff_ne]
        rintro rfl
        exact kept escapes
      rw [List.singleton_append, percentDecode_cons, ih]
      match percentEncode set rest with
      | [] => rfl
      | [b] => rfl
      | b :: c :: _ => simp [startsEscape, notPercent]

/-! ## Paths -/

def isSlash (b : UInt8) : Bool := b == 47 || b == 92
def isTabOrNewline (b : UInt8) : Bool := b == 9 || b == 10 || b == 13
def isC0OrSpace (b : UInt8) : Bool := b ≤ 32

/-- A `?` or a `#`. -/
def endsPath (b : UInt8) : Bool := b == 63 || b == 35

/-- The bytes that a path does not hold as they are. -/
def pathSet (b : UInt8) : Bool := b ≤ 32 || 127 ≤ b || (ascii "\"#<>?^`\x7b\x7d").contains b

/-- What a segment that is pushed to a path does not hold as it is. -/
def segmentSet (b : UInt8) : Bool := pathSet b || (ascii "/%\\").contains b

def querySet (b : UInt8) : Bool := b ≤ 32 || 127 ≤ b || (ascii "\"#<>'").contains b
def fragmentSet (b : UInt8) : Bool := b ≤ 32 || 127 ≤ b || (ascii "\"<>`").contains b

def singleDot (s : Text) : Bool := [".", "%2e", "%2E"].any (ascii · == s)

def doubleDot (s : Text) : Bool :=
  ["..", ".%2e", ".%2E", "%2e.", "%2E.", "%2e%2e", "%2e%2E", "%2E%2e", "%2E%2E"].any (ascii · == s)

/-- Adds segments to a path. A dot segment is not added, and leaves an empty segment where it is the last. -/
def resolve (path : List Text) : List Text → List Text
  | [] => path
  | [s] =>
    if doubleDot s then path.dropLast ++ [[]] else if singleDot s then path ++ [[]] else path ++ [s]
  | s :: rest =>
    if doubleDot s then resolve path.dropLast rest
    else if singleDot s then resolve path rest
    else resolve (path ++ [s]) rest

/-- The path of an address, from what stands after its first slash. -/
def parsePath (t : Text) : List Text :=
  resolve [] (((t.takeWhile (!endsPath ·)).splitOnP isSlash).map (percentEncode pathSet))

/-- Segments with a slash between any two. -/
def joined : List Text → Text
  | [] => []
  | [p] => p
  | p :: rest => p ++ 47 :: joined rest

/-- What the scanner sees of the end of a text. -/
def scanEnd (t : Text) : Text := (t.rdropWhile isC0OrSpace).filter (!isTabOrNewline ·)

/-- What the scanner sees of a text: not the spaces around it, and no tab or newline. -/
def scan (t : Text) : Text := scanEnd (t.dropWhile isC0OrSpace)

/-- A text that fits in one segment of a path: nothing in it separates, ends the path, is skipped or decoded,
and it is no dot segment. -/
def fitsSegment (p : Text) : Bool :=
  p.all (fun b => !isSlash b && !endsPath b && !isTabOrNewline b) && !hasEscape p &&
    p != ascii "." && p != ascii ".."

/-- A text that loses nothing where it ends the address. -/
def fitsEnd (p : Text) : Bool := p.getLast?.all (!isC0OrSpace ·)

/-! ### The size of a path -/

/-- The length of a path, a slash counted for each segment. -/
def size (path : List Text) : ℕ := (path.map (·.length + 1)).sum

@[simp] lemma size_nil : size [] = 0 := rfl

@[simp] lemma size_cons (s : Text) (path : List Text) : size (s :: path) = s.length + 1 + size path := rfl

@[simp] lemma size_append (path rest : List Text) : size (path ++ rest) = size path + size rest := by
  simp [size]

lemma joined_cons {p : Text} {rest : List Text} (some : rest ≠ []) :
    joined (p :: rest) = p ++ 47 :: joined rest := by
  cases rest with
  | nil => exact (some rfl).elim
  | cons q rest => rfl

lemma size_joined {ps : List Text} (some : ps ≠ []) : size ps = (joined ps).length + 1 := by
  induction ps with
  | nil => exact (some rfl).elim
  | cons p rest ih =>
    cases rest with
    | nil => rfl
    | cons q rest =>
      rw [size_cons, ih (by simp), joined_cons (p := p) (by simp), List.length_append, List.length_cons]
      omega

lemma size_splitOnP (t : Text) : size (t.splitOnP isSlash) = t.length + 1 := by
  induction t with
  | nil => rfl
  | cons a t ih =>
    rw [List.splitOnP_cons_eq_if_modifyHead]
    split
    · rw [size_cons, ih, List.length_cons, List.length_nil]
      omega
    · cases split : t.splitOnP isSlash with
      | nil => exact (List.splitOnP_ne_nil _ _ split).elim
      | cons s rest =>
        rw [split, size_cons] at ih
        rw [List.modifyHead_cons, size_cons, List.length_cons, List.length_cons]
        omega

lemma not_isSlash_of_mem_splitOnP {t s : Text} (mem : s ∈ t.splitOnP isSlash) {b : UInt8} (inside : b ∈ s) :
    isSlash b = false := by
  induction t generalizing s with
  | nil =>
    rw [List.splitOnP_nil, List.mem_singleton] at mem
    rw [mem] at inside
    cases inside
  | cons a t ih =>
    rw [List.splitOnP_cons_eq_if_modifyHead] at mem
    split at mem
    · rcases List.mem_cons.1 mem with rfl | mem
      · cases inside
      · exact ih mem inside
    case isFalse plain =>
      cases split : t.splitOnP isSlash with
      | nil => exact (List.splitOnP_ne_nil _ _ split).elim
      | cons first rest =>
        rw [split] at mem ih
        rcases List.mem_cons.1 mem with rfl | mem
        · rcases List.mem_cons.1 inside with rfl | inside
          · exact Bool.not_eq_true _ ▸ plain
          · exact ih List.mem_cons_self inside
        · exact ih (List.mem_cons_of_mem _ mem) inside

/-- Joined segments without separators of their own are split where they were joined. -/
lemma splitOnP_joined {ps : List Text} (some : ps ≠ []) (plain : ∀ p ∈ ps, ∀ b ∈ p, isSlash b = false) :
    (joined ps).splitOnP isSlash = ps := by
  induction ps with
  | nil => exact (some rfl).elim
  | cons p rest ih =>
    cases rest with
    | nil => exact List.splitOnP_eq_singleton (plain p List.mem_cons_self)
    | cons q rest =>
      rw [joined_cons (by simp), List.splitOnP_append_cons_of_forall_mem (plain p List.mem_cons_self) _ rfl,
        ih (by simp) fun p mem => plain p (List.mem_cons_of_mem _ mem)]

/-! ### What a path loses -/

lemma pathSet_keepsEscapes : KeepsEscapes pathSet := by
  have hex : ∀ n < 256, isHex (UInt8.ofNat n) = true → pathSet (UInt8.ofNat n) = false := by decide +kernel
  refine ⟨by decide, fun b => ?_⟩
  rw [← UInt8.ofNat_toNat (x := b)]
  exact hex _ b.toNat_lt

/-- A dot segment is one however its dots are written. -/
lemma decode_of_dot {s : Text} (dot : (singleDot s || doubleDot s) = true) :
    percentDecode s = ascii "." ∨ percentDecode s = ascii ".." := by
  simp only [singleDot, doubleDot, List.any_cons, List.any_nil, Bool.or_eq_true, beq_iff_eq] at dot
  rcases dot with (rfl | rfl | rfl | dot) | (rfl | rfl | rfl | rfl | rfl | rfl | rfl | rfl | rfl | dot)
  all_goals first | exact Or.inl rfl | exact Or.inr rfl | cases dot

/-- What a path is taken for where it is read. -/
def decoded (path : List Text) : List Text := path.map percentDecode

@[simp] lemma decoded_nil : decoded [] = [] := rfl

@[simp] lemma decoded_cons (s : Text) (path : List Text) :
    decoded (s :: path) = percentDecode s :: decoded path := rfl

@[simp] lemma decoded_append (path rest : List Text) :
    decoded (path ++ rest) = decoded path ++ decoded rest := List.map_append

lemma size_dropLast (path : List Text) : size (decoded path.dropLast) ≤ size (decoded path) := by
  rcases List.eq_nil_or_concat path with rfl | ⟨front, last, rfl⟩
  · rfl
  · rw [List.concat_eq_append, List.dropLast_concat, decoded_append, size_append]
    omega

/-- Segments that are no dot segments are all added. -/
lemma resolve_of_noDots (path : List Text) {segments : List Text}
    (noDots : ∀ s ∈ segments, (singleDot s || doubleDot s) = false) : resolve path segments = path ++ segments := by
  induction segments generalizing path with
  | nil => simp [resolve]
  | cons s rest ih =>
    obtain ⟨single, double⟩ := Bool.or_eq_false_iff.1 (noDots s List.mem_cons_self)
    cases rest with
    | nil => simp [resolve, single, double]
    | cons r rest =>
      have ih := ih (path ++ [s]) fun x mem => noDots x (List.mem_cons_of_mem _ mem)
      simp [resolve, single, double, ih]

/-- A dot segment is lost, and with it what it takes back. -/
lemma resolve_size (path segments : List Text) :
    size (decoded (resolve path segments)) ≤ size (decoded path) + size (decoded segments) ∧
      ((∃ s ∈ segments, (singleDot s || doubleDot s) = true) →
        size (decoded (resolve path segments)) < size (decoded path) + size (decoded segments)) := by
  have long : ∀ s, (singleDot s || doubleDot s) = true → 0 < (percentDecode s).length := by
    intro s dot
    rcases decode_of_dot dot with e | e <;> rw [e] <;> decide
  induction segments generalizing path with
  | nil => simp [resolve]
  | cons s rest ih =>
    have dropped := size_dropLast path
    have long := long s
    cases rest with
    | nil =>
      simp only [List.mem_singleton, exists_eq_left]
      rw [resolve]
      split
      case isTrue double =>
        have long := long (by rw [double, Bool.or_true])
        simp only [decoded_append, decoded_cons, decoded_nil, size_append, size_cons, size_nil, percentDecode_nil,
          List.length_nil]
        exact ⟨by omega, fun _ => by omega⟩
      case isFalse double =>
        split
        case isTrue single =>
          have long := long (by rw [single, Bool.true_or])
          simp only [decoded_append, decoded_cons, decoded_nil, size_append, size_cons, size_nil,
            percentDecode_nil, List.length_nil]
          exact ⟨by omega, fun _ => by omega⟩
        case isFalse single => simp [single, double]
    | cons r rest =>
      rw [resolve, decoded_cons, size_cons]
      · split
        case isTrue double =>
          have ih := (ih path.dropLast).1
          exact ⟨by omega, fun _ => by omega⟩
        case isFalse double =>
          split
          case isTrue single =>
            have ih := (ih path).1
            exact ⟨by omega, fun _ => by omega⟩
          case isFalse single =>
            obtain ⟨le, lt⟩ := ih (path ++ [s])
            simp only [decoded_append, decoded_cons, decoded_nil, size_append, size_cons, size_nil] at le lt ⊢
            refine ⟨by omega, ?_⟩
            rintro ⟨x, mem, dot⟩
            have later : x ∈ r :: rest := by
              rcases List.mem_cons.1 mem with rfl | mem
              · rw [Bool.or_eq_true] at dot
                exact (dot.elim single double).elim
              · exact mem
            have lt := lt ⟨x, later, dot⟩
            omega
      · simp

lemma size_decoded_encode (segments : List Text) :
    size (decoded (segments.map (percentEncode pathSet))) ≤ size segments ∧
      (size (decoded (segments.map (percentEncode pathSet))) = size segments →
        (∀ s ∈ segments, hasEscape s = false) ∧ decoded (segments.map (percentEncode pathSet)) = segments) := by
  induction segments with
  | nil => simp
  | cons s rest ih =>
    obtain ⟨le, exactly⟩ := ih
    have length := percentDecode_length s
    rw [List.map_cons, decoded_cons, size_cons, size_cons, pathSet_keepsEscapes.decode_encode]
    refine ⟨by split at length <;> omega, fun same => ?_⟩
    cases escapes : hasEscape s with
    | true =>
      rw [escapes, if_pos rfl] at length
      omega
    | false =>
      obtain ⟨plain, all⟩ := exactly (by rw [percentDecode_eq_self escapes] at same; omega)
      refine ⟨?_, by rw [percentDecode_eq_self escapes, all]⟩
      rintro x (_ | ⟨_, mem⟩)
      · exact escapes
      · exact plain x mem

/-- A path is never longer than its text, and as long only if its segments are those of the text. -/
lemma size_parsePath (t : Text) : size (decoded (parsePath t)) ≤ t.length + 1 ∧
    (size (decoded (parsePath t)) = t.length + 1 →
      decoded (parsePath t) = t.splitOnP isSlash ∧ (∀ b ∈ t, endsPath b = false) ∧
        ∀ s ∈ t.splitOnP isSlash, hasEscape s = false ∧ s ≠ ascii "." ∧ s ≠ ascii "..") := by
  have part : (t.takeWhile (!endsPath ·)).length ≤ t.length := (List.takeWhile_prefix _).length_le
  have whole := size_splitOnP (t.takeWhile (!endsPath ·))
  obtain ⟨le, exactly⟩ := size_decoded_encode ((t.takeWhile (!endsPath ·)).splitOnP isSlash)
  obtain ⟨resolved, dotLost⟩ :=
    resolve_size [] (((t.takeWhile (!endsPath ·)).splitOnP isSlash).map (percentEncode pathSet))
  rw [← parsePath, decoded_nil, size_nil, Nat.zero_add] at resolved dotLost
  refine ⟨by omega, fun full => ?_⟩
  obtain ⟨plain, all⟩ := exactly (by omega)
  have same : t.takeWhile (!endsPath ·) = t := (List.takeWhile_prefix _).eq_of_length (by omega)
  have noDots : ∀ s ∈ ((t.takeWhile (!endsPath ·)).splitOnP isSlash).map (percentEncode pathSet),
      (singleDot s || doubleDot s) = false := by
    intro s mem
    rw [← Bool.not_eq_true]
    intro dot
    have lost := dotLost ⟨s, mem, dot⟩
    omega
  rw [parsePath, resolve_of_noDots [] noDots, List.nil_append]
  rw [same] at plain all noDots ⊢
  refine ⟨all, fun b mem => ?_, fun s mem => ⟨plain s mem, ?_, ?_⟩⟩
  · simpa using List.takeWhile_eq_self_iff.1 same b mem
  · rintro rfl
    exact absurd (noDots _ (List.mem_map_of_mem mem)) (by decide)
  · rintro rfl
    exact absurd (noDots _ (List.mem_map_of_mem mem)) (by decide)

/-- What follows a path is not read as a part of it. -/
lemma parsePath_takeWhile (t : Text) : parsePath (t.takeWhile (!endsPath ·)) = parsePath t := by
  rw [parsePath, List.takeWhile_takeWhile, parsePath]
  simp

lemma scanEnd_sublist (t : Text) : (scanEnd t).Sublist t :=
  List.filter_sublist.trans (List.rdropWhile_prefix _ _).sublist

lemma mem_joined {ps : List Text} {p : Text} {b : UInt8} (mem : p ∈ ps) (inside : b ∈ p) : b ∈ joined ps := by
  induction ps with
  | nil => cases mem
  | cons q rest ih =>
    rcases List.mem_cons.1 mem with rfl | mem
    · cases rest with
      | nil => exact inside
      | cons r rest => exact List.mem_append_left _ inside
    · rw [joined_cons (List.ne_nil_of_mem mem)]
      exact List.mem_append_right _ (List.mem_cons_of_mem _ (ih mem))

lemma joined_forall {P : UInt8 → Prop} {ps : List Text} (slash : P 47) (all : ∀ p ∈ ps, ∀ b ∈ p, P b) :
    ∀ b ∈ joined ps, P b := by
  induction ps with
  | nil => simp [joined]
  | cons p rest ih =>
    have ih := ih fun q mem => all q (List.mem_cons_of_mem _ mem)
    cases rest with
    | nil => exact all p List.mem_cons_self
    | cons q rest =>
      rintro b mem
      rw [joined_cons (by simp), List.mem_append, List.mem_cons] at mem
      rcases mem with mem | rfl | mem
      · exact all p List.mem_cons_self b mem
      · exact slash
      · exact ih b mem

/-- The text ends with its last segment, or else with a slash. -/
lemma fitsEnd_joined (ps : List Text) {last : Text} : fitsEnd (joined (ps ++ [last])) = fitsEnd last := by
  induction ps with
  | nil => rfl
  | cons p rest ih =>
    rw [List.cons_append, joined_cons (by simp), ← ih]
    cases e : joined (rest ++ [last]) with
    | nil => simp [fitsEnd, isC0OrSpace]
    | cons a l => simp [fitsEnd, List.getLast?_cons]

lemma fitsEnd_iff (t : Text) : fitsEnd t = true ↔ t.rdropWhile isC0OrSpace = t := by
  rw [List.rdropWhile_eq_self_iff, fitsEnd]
  rcases List.eq_nil_or_concat t with rfl | ⟨front, b, rfl⟩
  · simp
  · simp

lemma fitsSegment_iff (p : Text) : fitsSegment p = true ↔
    (∀ b ∈ p, isSlash b = false ∧ endsPath b = false ∧ isTabOrNewline b = false) ∧ hasEscape p = false ∧
      p ≠ ascii "." ∧ p ≠ ascii ".." := by
  simp [fitsSegment, and_assoc]

lemma hasEscape_eq_false {t : Text} (noPercent : 37 ∉ t) : hasEscape t = false := by
  induction t with
  | nil => rfl
  | cons a rest ih =>
    rw [List.mem_cons, not_or] at noPercent
    rw [hasEscape, ih noPercent.2, Bool.or_false]
    match rest with
    | [] => rfl
    | [b] => rfl
    | b :: c :: rest => simp [startsEscape, Ne.symm noPercent.1]

/-- A number fits in a segment. -/
lemma fitsSegment_toString (n : ℤ) : fitsSegment (ascii (toString n)) = true := by
  have digits : ∀ m : ℕ, ∀ c ∈ m.repr.toList, c = '-' ∨ 48 ≤ c.toNat ∧ c.toNat < 58 := by
    intro m c mem
    rw [Nat.toList_repr] at mem
    have digit := Nat.isDigit_of_mem_toDigits (by decide) (by decide) mem
    rw [Char.isDigit, Bool.and_eq_true, decide_eq_true_iff, decide_eq_true_iff] at digit
    exact Or.inr ⟨digit.1, Nat.lt_succ_of_le digit.2⟩
  have chars : ∀ c ∈ (toString n).toList, c = '-' ∨ 48 ≤ c.toNat ∧ c.toNat < 58 := by
    cases n with
    | ofNat m => exact digits m
    | negSucc m =>
      intro c mem
      have mem : c ∈ ("-" ++ (m + 1).repr).toList := mem
      rw [String.toList_append, List.mem_append] at mem
      rcases mem with mem | mem
      · left
        simpa using mem
      · exact digits _ c mem
  have plain : ∀ c, (c = '-' ∨ 48 ≤ c.toNat ∧ c.toNat < 58) →
      (isSlash c.toUInt8 || endsPath c.toUInt8 || isTabOrNewline c.toUInt8 || c.toUInt8 == 37 ||
        c.toUInt8 == 46) = false := by
    have range : ∀ n < 58, 48 ≤ n → (isSlash (Char.ofNat n).toUInt8 || endsPath (Char.ofNat n).toUInt8 ||
        isTabOrNewline (Char.ofNat n).toUInt8 || (Char.ofNat n).toUInt8 == 37 ||
        (Char.ofNat n).toUInt8 == 46) = false := by decide
    rintro c (rfl | ⟨low, high⟩)
    · rfl
    · have some := range c.toNat high low
      rwa [Char.ofNat_toNat] at some
  have bytes : ∀ b ∈ ascii (toString n),
      (isSlash b || endsPath b || isTabOrNewline b || b == 37 || b == 46) = false := by
    intro b mem
    obtain ⟨c, inside, rfl⟩ := List.mem_map.1 mem
    exact plain c (chars c inside)
  simp only [Bool.or_eq_false_iff, beq_eq_false_iff_ne] at bytes
  rw [fitsSegment_iff]
  refine ⟨fun b mem => ?_, hasEscape_eq_false fun mem => ?_, fun dot => ?_, fun dots => ?_⟩
  · obtain ⟨⟨⟨⟨slash, ends⟩, tab⟩, -⟩, -⟩ := bytes b mem
    exact ⟨slash, ends, tab⟩
  · exact (bytes _ mem).1.2 rfl
  · exact (bytes 46 (dot ▸ by decide)).2 rfl
  · exact (bytes 46 (dots ▸ by decide)).2 rfl

/-- Segments that fit are scanned whole. -/
lemma scanEnd_joined {front : List Text} {last : Text} (fits : ∀ p ∈ front ++ [last], fitsSegment p = true)
    (atEnd : fitsEnd last = true) : scanEnd (joined (front ++ [last])) = joined (front ++ [last]) ∧
      ∀ b ∈ joined (front ++ [last]), endsPath b = false := by
  have plain : ∀ b ∈ joined (front ++ [last]), endsPath b = false ∧ isTabOrNewline b = false := by
    refine joined_forall ⟨rfl, rfl⟩ ?_
    exact fun p mem b inside => ((fitsSegment_iff p).1 (fits p mem)).1 b inside |>.2
  rw [← fitsEnd_joined front, fitsEnd_iff] at atEnd
  refine ⟨?_, fun b mem => (plain b mem).1⟩
  rw [scanEnd, atEnd, List.filter_eq_self]
  exact fun b mem => by rw [(plain b mem).2]; rfl

/-- What is read of joined segments is those segments exactly if each fits in its place. -/
theorem parsePath_exact {front : List Text} {last : Text} :
    decoded (parsePath (scanEnd (joined (front ++ [last])))) = front ++ [last] ↔
      (∀ p ∈ front ++ [last], fitsSegment p = true) ∧ fitsEnd last = true := by
  constructor
  · have sizes : size (front ++ [last]) = (joined (front ++ [last])).length + 1 := size_joined (by simp)
    generalize written : joined (front ++ [last]) = t at sizes ⊢
    intro read
    obtain ⟨le, exactly⟩ := size_parsePath (scanEnd t)
    have shorter := (scanEnd_sublist t).length_le
    have scanned : scanEnd t = t := by
      apply (scanEnd_sublist t).eq_of_length
      rw [read] at le
      omega
    rw [scanned] at exactly read
    obtain ⟨split, path, plain⟩ := exactly (by rw [read, sizes])
    have untrimmed : t.rdropWhile isC0OrSpace = t := by
      refine (List.rdropWhile_prefix _ _).eq_of_length (le_antisymm (List.rdropWhile_prefix _ _).length_le ?_)
      conv_lhs => rw [← scanned]
      exact List.length_filter_le _ _
    have noTabs : ∀ b ∈ t, isTabOrNewline b = false := by
      rw [scanEnd, untrimmed, List.filter_eq_self] at scanned
      simpa using scanned
    rw [read] at split
    refine ⟨fun p mem => ?_, ?_⟩
    · have inside : ∀ b ∈ p, b ∈ t := fun b => written ▸ mem_joined mem
      rw [split] at mem
      obtain ⟨noEscape, notDot, notDots⟩ := plain p mem
      rw [fitsSegment_iff]
      exact ⟨fun b at_ => ⟨not_isSlash_of_mem_splitOnP mem at_, path b (inside b at_), noTabs b (inside b at_)⟩,
        noEscape, notDot, notDots⟩
    · rw [← fitsEnd_joined front, written]
      exact (fitsEnd_iff t).2 untrimmed
  · rintro ⟨fits, atEnd⟩
    obtain ⟨scanned, path⟩ := scanEnd_joined fits atEnd
    have whole : (joined (front ++ [last])).takeWhile (!endsPath ·) = joined (front ++ [last]) :=
      List.takeWhile_eq_self_iff.2 fun b mem => by rw [path b mem]; rfl
    have split : (joined (front ++ [last])).splitOnP isSlash = front ++ [last] :=
      splitOnP_joined (by simp) fun p mem b inside => ((fitsSegment_iff p).1 (fits p mem)).1 b inside |>.1
    have same : ∀ p ∈ front ++ [last], percentDecode (percentEncode pathSet p) = p := by
      intro p mem
      rw [pathSet_keepsEscapes.decode_encode, percentDecode_eq_self ((fitsSegment_iff p).1 (fits p mem)).2.1]
    rw [scanned, parsePath, whole, split, resolve_of_noDots, List.nil_append, decoded, List.map_map]
    · exact (List.map_congr_left same).trans (List.map_id _)
    · rw [List.forall_mem_map]
      intro p mem
      obtain ⟨-, -, notDot, notDots⟩ := (fitsSegment_iff p).1 (fits p mem)
      rw [← Bool.not_eq_true]
      intro dot
      rcases decode_of_dot dot with e | e
      · exact notDot (same p mem ▸ e)
      · exact notDots (same p mem ▸ e)

/-- A path of which all segments fit is all that is written. -/
lemma dropWhile_joined {front : List Text} {last : Text} (fits : ∀ p ∈ front ++ [last], fitsSegment p = true)
    (atEnd : fitsEnd last = true) : (scanEnd (joined (front ++ [last]))).dropWhile (!endsPath ·) = [] := by
  obtain ⟨scanned, path⟩ := scanEnd_joined fits atEnd
  rw [scanned, List.dropWhile_eq_nil_iff]
  exact fun b mem => by rw [path b mem]; rfl

/-! ## Addresses -/

inductive Scheme where
  | http
  | https
deriving DecidableEq, Repr

/-- What a text of the scheme begins with. -/
def Scheme.start : Scheme → Text
  | .http => ascii "http://"
  | .https => ascii "https://"

structure Url where
  scheme : Scheme
  authority : Text
  path : List Text
  query : Option Text
  fragment : Option Text
deriving DecidableEq

/-- The query and the fragment, from what follows the path. -/
def parseQuery (t : Text) : Option Text :=
  if t.head? = some 63 then some (percentEncode querySet ((t.drop 1).takeWhile (· != 35))) else none

def parseFragment (t : Text) : Option Text :=
  match t.dropWhile (· != 35) with
  | [] => none
  | _ :: fragment => some (percentEncode fragmentSet fragment)

/-- The address at an authority, from what stands after the first slash of its path. -/
def parseAfter (scheme : Scheme) (authority t : Text) : Url where
  scheme
  authority
  path := parsePath t
  query := parseQuery (t.dropWhile (!endsPath ·))
  fragment := parseFragment (t.dropWhile (!endsPath ·))

/-- Joins a path from the root to an address. The other kinds of reference have no result here. -/
def Url.join (base : Url) (t : Text) : Option Url :=
  match scan t with
  | a :: rest =>
    if isSlash a && !rest.head?.any isSlash then some (parseAfter base.scheme base.authority rest) else none
  | [] => none

/-- Reads an address whose authority is one that an address was written with, which stands for itself. -/
def Url.parse (t : Text) : Option Url :=
  let withAuthority (scheme : Scheme) : Option Url :=
    let t := (scan t).drop scheme.start.length
    let authority := t.takeWhile fun b => !isSlash b && !endsPath b
    let rest := t.dropWhile fun b => !isSlash b && !endsPath b
    if authority = [] then none
    else some (parseAfter scheme authority (if rest.head?.any isSlash then rest.drop 1 else rest))
  if Scheme.http.start.isPrefixOf (scan t) then withAuthority .http
  else if Scheme.https.start.isPrefixOf (scan t) then withAuthority .https
  else none

/-- The text of an address. -/
def Url.text (u : Url) : Text :=
  u.scheme.start ++ u.authority ++ 47 :: joined u.path ++ (u.query.elim [] (63 :: ·)) ++
    (u.fragment.elim [] (35 :: ·))

/-- Pushes a segment to the path of an address. `.` and `..` are not pushed. An empty segment at the end of the
path stays, unless it is all of the path. -/
def Url.push (u : Url) (segment : Text) : Url :=
  if segment = ascii "." ∨ segment = ascii ".." then u
  else { u with
    path := resolve (if u.path = [[]] then [] else u.path)
      [percentEncode segmentSet (segment.filter (!isTabOrNewline ·))] }

/-- Writes a text for a form. -/
def formEncode (t : Text) : Text :=
  t.flatMap fun b =>
    if b = 32 then [43]
    else if (48 ≤ b && b ≤ 57) || (65 ≤ b && b ≤ 90) || (97 ≤ b && b ≤ 122) || (ascii "*-._").contains b then [b]
    else escape b

/-- Appends a pair to the query of an address. -/
def Url.appendPair (u : Url) (name value : Text) : Url :=
  let before := match u.query with
    | none => []
    | some [] => []
    | some q => q ++ ascii "&"
  { u with query := some (before ++ formEncode name ++ ascii "=" ++ formEncode value) }

/-- Where an address made of joined segments leads. -/
theorem parseAfter_exact (scheme : Scheme) (authority : Text) (front : List Text) (last : Text) :
    (decoded (parseAfter scheme authority (scanEnd (joined (front ++ [last])))).path = front ++ [last] ↔
      (∀ p ∈ front ++ [last], fitsSegment p = true) ∧ fitsEnd last = true) ∧
    ((∀ p ∈ front ++ [last], fitsSegment p = true) ∧ fitsEnd last = true →
      (parseAfter scheme authority (scanEnd (joined (front ++ [last])))).query = none) := by
  refine ⟨parsePath_exact, fun ⟨fits, atEnd⟩ => ?_⟩
  rw [parseAfter, dropWhile_joined fits atEnd]
  rfl

variable {t : Text}

/-- What stands in front of a text is scanned as it is, if it is nothing that a scanner skips. -/
lemma scanEnd_append (front : Text) (plain : ∀ b ∈ front, isC0OrSpace b = false ∧ isTabOrNewline b = false) :
    scanEnd (front ++ t) = front ++ scanEnd t := by
  have atEnd : (front ++ t).rdropWhile isC0OrSpace = front ++ t.rdropWhile isC0OrSpace := by
    induction t using List.reverseRecOn with
    | nil =>
      rw [List.append_nil, List.rdropWhile_nil, List.append_nil, List.rdropWhile_eq_self_iff]
      intro some
      rw [(plain _ (List.getLast_mem some)).1]
      exact Bool.false_ne_true
    | append_singleton t b ih =>
      rw [← List.append_assoc, List.rdropWhile_concat, List.rdropWhile_concat]
      split
      · exact ih
      · rw [List.append_assoc]
  have kept : front.filter (!isTabOrNewline ·) = front :=
    List.filter_eq_self.2 fun b mem => by rw [(plain b mem).2]; rfl
  rw [scanEnd, atEnd, List.filter_append, kept, scanEnd]

lemma scan_append (front : Text) (some : front ≠ [])
    (plain : ∀ b ∈ front, isC0OrSpace b = false ∧ isTabOrNewline b = false) :
    scan (front ++ t) = front ++ scanEnd t := by
  have start : (front ++ t).dropWhile isC0OrSpace = front ++ t := by
    obtain ⟨a, rest, rfl⟩ := List.exists_cons_of_ne_nil some
    rw [List.cons_append, List.dropWhile_cons_of_neg]
    rw [(plain a List.mem_cons_self).1]
    exact Bool.false_ne_true
  rw [scan, start, scanEnd_append front plain]

/-- A path from the root leads to the server of the address it is joined to. -/
lemma Url.join_root (base : Url) {a : UInt8} (plain : (isC0OrSpace a || isTabOrNewline a || isSlash a) = false) :
    base.join (47 :: a :: t) = some (parseAfter base.scheme base.authority (scanEnd (a :: t))) := by
  simp only [Bool.or_eq_false_iff] at plain
  obtain ⟨⟨space, tab⟩, slash⟩ := plain
  have scanned : scanEnd (a :: t) = a :: scanEnd t := scanEnd_append [a] (by simp [space, tab])
  have whole : scan (47 :: a :: t) = 47 :: a :: scanEnd t :=
    scan_append [47, a] (by simp)
      (by simp [space, tab, show isC0OrSpace 47 = false from rfl, show isTabOrNewline 47 = false from rfl])
  rw [join, whole, scanned]
  simp [slash, show isSlash 47 = true from rfl]

/-- The text of an authority. -/
def isAuthority (authority : Text) : Bool :=
  authority != [] &&
    authority.all fun b => !isSlash b && !endsPath b && !isTabOrNewline b && !isC0OrSpace b

/-- What is written behind the root of a server is read as a path on that server. -/
lemma Url.parse_root (scheme : Scheme) {authority : Text} (valid : isAuthority authority = true) :
    parse (scheme.start ++ authority ++ 47 :: t) = some (parseAfter scheme authority (scanEnd t)) := by
  simp only [isAuthority, Bool.and_eq_true, bne_iff_ne, List.all_eq_true, Bool.not_eq_true'] at valid
  obtain ⟨some, plain⟩ := valid
  have start : scheme.start.all (fun b => !isC0OrSpace b && !isTabOrNewline b) = true := by
    cases scheme <;> rfl
  simp only [List.all_eq_true, Bool.and_eq_true, Bool.not_eq_true'] at start
  have scanned : scan (scheme.start ++ authority ++ 47 :: t) = scheme.start ++ (authority ++ 47 :: scanEnd t) := by
    rw [List.append_cons, scan_append _ (by simp), List.append_assoc, List.append_assoc, List.singleton_append]
    intro b mem
    rw [List.mem_append, List.mem_append, List.mem_singleton] at mem
    rcases mem with (mem | mem) | rfl
    · exact start b mem
    · exact ⟨(plain b mem).2, (plain b mem).1.2⟩
    · exact ⟨rfl, rfl⟩
  have ends : ∀ b ∈ authority, (!isSlash b && !endsPath b) = true := by
    intro b mem
    rw [(plain b mem).1.1.1, (plain b mem).1.1.2]
    rfl
  have upTo : (authority ++ 47 :: scanEnd t).takeWhile (fun b => !isSlash b && !endsPath b) = authority := by
    rw [List.takeWhile_append_of_pos ends]
    exact List.append_nil _
  have after : (authority ++ 47 :: scanEnd t).dropWhile (fun b => !isSlash b && !endsPath b) = 47 :: scanEnd t := by
    rw [List.dropWhile_append_of_pos ends]
    rfl
  cases scheme with
  | http =>
    have isHttp : Scheme.http.start.isPrefixOf (Scheme.http.start ++ (authority ++ 47 :: scanEnd t)) = true := by
      simp
    simp only [parse, scanned, isHttp, if_true, List.drop_left, upTo, after, some, if_false]
    rfl
  | https =>
    have notHttp : Scheme.http.start.isPrefixOf (Scheme.https.start ++ (authority ++ 47 :: scanEnd t)) = false :=
      rfl
    have isHttps : Scheme.https.start.isPrefixOf (Scheme.https.start ++ (authority ++ 47 :: scanEnd t)) = true := by
      simp
    simp only [parse, scanned, notHttp, isHttps, if_true, List.drop_left, upTo, after, some, if_false,
      Bool.false_eq_true]
    rfl

/-! ### Pushed segments -/

/-- What a push can do to a path. -/
lemma Url.push_cases (u : Url) (segment : Text) :
    ((segment = ascii "." ∨ segment = ascii "..") ∧ (u.push segment).path = u.path) ∨
    (∃ s, (u.push segment).path = [s]) ∨
    (segment ≠ [] ∧ (u.push segment).path = u.path.dropLast ++ [[]]) ∨
    (segment ≠ [] ∧ (u.push segment).path = u.path ++ [[]]) ∨
    ((u.push segment).path =
      u.path ++ [percentEncode segmentSet (segment.filter (!isTabOrNewline ·))]) := by
  have some : ∀ {dot : Text → Bool}, dot [] = false →
      dot (percentEncode segmentSet (segment.filter (!isTabOrNewline ·))) = true → segment ≠ [] := by
    rintro dot noDot isDot rfl
    rw [List.filter_nil, percentEncode_nil, noDot] at isDot
    cases isDot
  by_cases dots : segment = ascii "." ∨ segment = ascii ".."
  · exact Or.inl ⟨dots, by rw [push, if_pos dots]⟩
  · right
    rw [push, if_neg dots]
    by_cases only : u.path = [[]]
    · left
      simp only [only, if_true, resolve]
      split
      · exact ⟨[], rfl⟩
      · split
        · exact ⟨[], rfl⟩
        · exact ⟨_, rfl⟩
    · right
      simp only [only, if_false, resolve]
      split
      case isTrue double => exact Or.inl ⟨some rfl double, rfl⟩
      case isFalse double =>
        split
        case isTrue single => exact Or.inr (Or.inl ⟨some rfl single, rfl⟩)
        case isFalse single => exact Or.inr (Or.inr rfl)

/-- In front of what is pushed there is nothing new. -/
lemma Url.push_size (u : Url) (segment : Text) :
    size (decoded (u.push segment).path.dropLast) ≤ size (decoded u.path) := by
  rcases u.push_cases segment with ⟨-, path⟩ | ⟨s, path⟩ | ⟨-, path⟩ | ⟨-, path⟩ | path
  · rw [path]
    exact size_dropLast _
  · rw [path]
    exact Nat.zero_le _
  · rw [path, List.dropLast_concat]
    exact size_dropLast _
  · rw [path, List.dropLast_concat]
  · rw [path, List.dropLast_concat]

/-- A segment without tabs and newlines is pushed as it is, and behind what the path ends with. -/
lemma Url.push_path {u : Url} {segment : Text} (path : u.path ≠ [[]])
    (plain : ∀ b ∈ segment, isTabOrNewline b = false) (notDot : segment ≠ ascii ".") (notDots : segment ≠ ascii "..") :
    decoded (u.push segment).path = decoded u.path ++ [segment] := by
  have kept : segment.filter (!isTabOrNewline ·) = segment :=
    List.filter_eq_self.2 fun b mem => by rw [plain b mem]; rfl
  have back : percentDecode (percentEncode segmentSet segment) = segment :=
    decode_encode_of_percent (by decide) segment
  have noDots : (singleDot (percentEncode segmentSet segment) || doubleDot (percentEncode segmentSet segment)) =
      false := by
    rw [← Bool.not_eq_true]
    intro dot
    rcases decode_of_dot dot with e | e
    · exact notDot (back ▸ e)
    · exact notDots (back ▸ e)
  rw [push, if_neg (not_or.2 ⟨notDot, notDots⟩), kept, if_neg path,
    resolve_of_noDots _ (List.forall_mem_singleton.2 noDots), decoded_append, decoded_cons, back, decoded_nil]

/-- A path whose text ends with a slash ends with an empty segment. -/
lemma parsePath_slash {t : Text} (plain : ∀ b ∈ t, endsPath b = false) :
    ∃ front, parsePath (t ++ [47]) = front ++ [[]] := by
  have resolved : ∀ path segments, ∃ front, resolve path (segments ++ [[]]) = front ++ [[]] := by
    intro path segments
    induction segments generalizing path with
    | nil => exact ⟨path, rfl⟩
    | cons s rest ih =>
      rw [List.cons_append, resolve]
      · split
        · exact ih _
        · split
          · exact ih _
          · exact ih _
      · simp
  have whole : (t ++ [47]).takeWhile (!endsPath ·) = t ++ [47] := by
    rw [List.takeWhile_eq_self_iff]
    intro b mem
    rcases List.mem_append.1 mem with mem | mem
    · rw [plain b mem]
      rfl
    · rw [List.mem_singleton.1 mem]
      rfl
  rw [parsePath, whole, List.splitOnP_append_cons _ _ rfl, List.splitOnP_nil, List.map_append]
  exact resolved _ _

end ArchipelagoXL.WebUrl
