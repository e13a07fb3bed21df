import Mathlib.Data.List.Basic
import Mathlib.Tactic.Common

/-!
# Semantic versions

A version has three numbers and may have a pre-release and a build part, each a list of identifiers. Its text puts a dash
before the one and a plus before the other. A version is read off its text in one way (`text_injective`), but the text
may hold that of another version behind a dash: identifiers have dashes of their own, and a pre-release or a build part
may look like a version (`endsIn_iff`).
-/

namespace ArchipelagoXL.SemVersion

def isIdentifierChar (c : Char) : Bool := c.isAlphanum || c == '-'

/-- What stands between the dots of a pre-release or a build part. -/
structure IsIdentifier (i : List Char) : Prop where
  some : i ≠ []
  chars : i.all isIdentifierChar = true

/-- A number in a pre-release has no zero before its other digits. -/
def NoLeadingZero (i : List Char) : Prop := i.all Char.isDigit = true → i.head? = some '0' → i = ['0']

/-- Rust `semver::Version`. -/
@[ext]
structure Version where
  major : ℕ
  minor : ℕ
  patch : ℕ
  pre : List (List Char)
  build : List (List Char)
  isPre : ∀ i ∈ pre, IsIdentifier i ∧ NoLeadingZero i
  isBuild : ∀ i ∈ build, IsIdentifier i

/-- Identifiers with dots between them. -/
def dotted (identifiers : List (List Char)) : List Char := ['.'].intercalate identifiers

/-- A part of a text behind its sign, which is left out with it if there is nothing. -/
def partText (sign : Char) (identifiers : List (List Char)) : List Char :=
  if identifiers = [] then [] else sign :: dotted identifiers

namespace Version

def core (v : Version) : List Char :=
  Nat.toDigits 10 v.major ++ '.' :: (Nat.toDigits 10 v.minor ++ '.' :: Nat.toDigits 10 v.patch)

def preText (v : Version) : List Char := partText '-' v.pre

def buildText (v : Version) : List Char := partText '+' v.build

/-- Rust `Display`. -/
def text (v : Version) : List Char := v.core ++ (v.preText ++ v.buildText)

instance : ToString Version := ⟨fun v => String.ofList v.text⟩

/-- Another version stands at the end of a version's text, behind a dash in its pre-release or its build part. -/
inductive EndsIn (v : Version) : List Char → Version → Prop
  | pre {start w} : v.preText = start ++ '-' :: (w.core ++ w.preText) → w.build = v.build → EndsIn v (v.core ++ start) w
  | build {start w} : v.buildText = start ++ '-' :: w.text → EndsIn v (v.core ++ (v.preText ++ start)) w

end Version

/-! ## Parts of a text -/

section
variable {A : Type} {p : A → Bool} {a a' b b' : List A}

lemma takeWhile_append_of_head (all : ∀ x ∈ a, p x = true) (next : ∀ x ∈ b.head?, p x = false) :
    (a ++ b).takeWhile p = a := by
  rw [List.takeWhile_append_of_pos all]
  cases b with
  | nil => simp
  | cons x b => rw [List.takeWhile_cons_of_neg (by simp [next x rfl]), List.append_nil]

/-- A text is cut in one way where elements of a kind end. -/
lemma append_inj_of_head (all : ∀ x ∈ a, p x = true) (all' : ∀ x ∈ a', p x = true)
    (next : ∀ x ∈ b.head?, p x = false) (next' : ∀ x ∈ b'.head?, p x = false) (same : a ++ b = a' ++ b') :
    a = a' ∧ b = b' := by
  have start : a = a' := by
    rw [← takeWhile_append_of_head all next, same, takeWhile_append_of_head all' next']
  subst start
  exact ⟨rfl, List.append_cancel_left same⟩

lemma split_behind {x : A} {start rest : List A} (other : x ∉ a) (same : a ++ b = start ++ x :: rest) :
    ∃ before, start = a ++ before ∧ b = before ++ x :: rest := by
  rcases List.append_eq_append_iff.mp same with ⟨before, whole, split⟩ | ⟨before, whole, split⟩
  · exact ⟨before, whole, split⟩
  · cases before with
    | nil =>
      rw [List.append_nil] at whole
      exact ⟨[], by rw [whole, List.append_nil], split.symm⟩
    | cons y before =>
      rw [← (List.cons.inj split).1] at whole
      exact absurd (by rw [whole]; exact List.mem_append_right start List.mem_cons_self) other

end

lemma isDigit_of_mem {n : ℕ} {c : Char} (mem : c ∈ Nat.toDigits 10 n) : c.isDigit = true :=
  Nat.isDigit_of_mem_toDigits (by decide) (by decide) mem

lemma digits_injective {m n : ℕ} (same : Nat.toDigits 10 m = Nat.toDigits 10 n) : m = n := by
  rw [← Nat.ofDigitChars_toDigits (b := 10) (n := m) (by decide) (by decide), same,
    Nat.ofDigitChars_toDigits (by decide) (by decide)]

lemma mem_dotted {identifiers : List (List Char)} {c : Char} (mem : c ∈ dotted identifiers) :
    c = '.' ∨ ∃ i ∈ identifiers, c ∈ i := by
  induction identifiers with
  | nil => cases mem
  | cons i identifiers ih =>
    cases identifiers with
    | nil =>
      rw [dotted, List.intercalate_singleton] at mem
      exact .inr ⟨i, List.mem_cons_self, mem⟩
    | cons j rest =>
      rw [dotted, List.intercalate_cons_cons, List.append_assoc] at mem
      rcases List.mem_append.mp mem with first | mem
      · exact .inr ⟨i, List.mem_cons_self, first⟩
      · rcases List.mem_append.mp mem with dot | later
        · exact .inl (List.mem_singleton.mp dot)
        · rcases ih later with dot | ⟨j', known, inside⟩
          · exact .inl dot
          · exact .inr ⟨j', List.mem_cons_of_mem i known, inside⟩

/-- A sign that no identifier has stands only before a part. -/
lemma not_mem_dotted {identifiers : List (List Char)} (are : ∀ i ∈ identifiers, IsIdentifier i) {c : Char}
    (noDot : c ≠ '.') (other : isIdentifierChar c = false) : c ∉ dotted identifiers := by
  intro mem
  rcases mem_dotted mem with dot | ⟨i, known, inside⟩
  · exact noDot dot
  · rw [List.all_eq_true.mp (are i known).chars c inside] at other
    cases other

lemma not_mem_partText {identifiers : List (List Char)} (are : ∀ i ∈ identifiers, IsIdentifier i) {sign c : Char}
    (noSign : c ≠ sign) (noDot : c ≠ '.') (other : isIdentifierChar c = false) : c ∉ partText sign identifiers := by
  rw [partText]
  split
  · exact List.not_mem_nil
  · intro mem
    rcases List.mem_cons.mp mem with same | mem
    · exact noSign same
    · exact not_mem_dotted are noDot other mem

lemma head_partText {sign : Char} {identifiers : List (List Char)} :
    ∀ c ∈ (partText sign identifiers).head?, c = sign := by
  intro c first
  rw [partText] at first
  split at first
  · cases first
  · exact (Option.some.inj first).symm

/-- A part is read off its text in one way. -/
lemma partText_injective {sign : Char} {l l' : List (List Char)} (are : ∀ i ∈ l, IsIdentifier i)
    (are' : ∀ i ∈ l', IsIdentifier i) (same : partText sign l = partText sign l') : l = l' := by
  have noDot {l : List (List Char)} (are : ∀ i ∈ l, IsIdentifier i) : ∀ i ∈ l, '.' ∉ i := by
    intro i known mem
    have wrong := List.all_eq_true.mp (are i known).chars '.' mem
    revert wrong
    decide
  rw [partText, partText] at same
  by_cases none : l = []
  · by_cases none' : l' = []
    · rw [none, none']
    · rw [if_pos none, if_neg none'] at same
      cases same
  · by_cases none' : l' = []
    · rw [if_neg none, if_pos none'] at same
      cases same
    · rw [if_neg none, if_neg none'] at same
      rw [← List.splitOn_intercalate '.' (noDot are) none, ← List.splitOn_intercalate '.' (noDot are') none']
      exact congrArg _ (List.cons.inj same).2

namespace Version

variable (v w : Version)

lemma mem_core {c : Char} (mem : c ∈ v.core) : c = '.' ∨ c.isDigit = true := by
  rw [core] at mem
  rcases List.mem_append.mp mem with digit | mem
  · exact .inr (isDigit_of_mem digit)
  · rcases List.mem_cons.mp mem with dot | mem
    · exact .inl dot
    · rcases List.mem_append.mp mem with digit | mem
      · exact .inr (isDigit_of_mem digit)
      · rcases List.mem_cons.mp mem with dot | digit
        · exact .inl dot
        · exact .inr (isDigit_of_mem digit)

lemma not_mem_core {c : Char} (noDot : c ≠ '.') (noDigit : c.isDigit = false) : c ∉ v.core := by
  intro mem
  rcases v.mem_core mem with dot | digit
  · exact noDot dot
  · rw [noDigit] at digit
    cases digit

lemma plus_notMem_preText : '+' ∉ v.preText :=
  not_mem_partText (fun i known => (v.isPre i known).1) (by decide) (by decide) (by decide)

/-- A text has the characters of identifiers and three signs. -/
lemma notMem_text {c : Char} (noDot : c ≠ '.') (noDash : c ≠ '-') (noPlus : c ≠ '+') (noDigit : c.isDigit = false)
    (other : isIdentifierChar c = false) : c ∉ v.text := by
  rw [text, List.mem_append, List.mem_append, not_or, not_or]
  refine ⟨v.not_mem_core noDot noDigit, ?_, ?_⟩
  · exact not_mem_partText (fun i known => (v.isPre i known).1) noDash noDot other
  · exact not_mem_partText v.isBuild noPlus noDot other

lemma slash_notMem_text : '/' ∉ v.text :=
  v.notMem_text (by decide) (by decide) (by decide) (by decide) (by decide)

lemma colon_notMem_text : ':' ∉ v.text :=
  v.notMem_text (by decide) (by decide) (by decide) (by decide) (by decide)

/-- What is behind the numbers starts with a sign. -/
lemma head_tail : ∀ c ∈ (v.preText ++ v.buildText).head?, c = '-' ∨ c = '+' := by
  intro c first
  rw [List.head?_append] at first
  cases pre : v.preText.head? with
  | none =>
    rw [pre, Option.none_or] at first
    exact .inr (head_partText c first)
  | some d =>
    rw [pre] at first
    obtain rfl := Option.some.inj first
    exact .inl (head_partText d pre)

variable {v w}

/-- The numbers, and what is behind them, are read off a text in one way. -/
lemma core_inj {r r' : List Char} (next : ∀ c ∈ r.head?, c.isDigit = false) (next' : ∀ c ∈ r'.head?, c.isDigit = false)
    (same : v.core ++ r = w.core ++ r') :
    (v.major = w.major ∧ v.minor = w.minor ∧ v.patch = w.patch) ∧ r = r' := by
  simp only [core, List.append_assoc, List.cons_append] at same
  have digits (n : ℕ) : ∀ c ∈ Nat.toDigits 10 n, c.isDigit = true := fun c mem => isDigit_of_mem mem
  have dot (l : List Char) : ∀ c ∈ ('.' :: l).head?, c.isDigit = false := by simp
  obtain ⟨major, same⟩ := append_inj_of_head (digits _) (digits _) (dot _) (dot _) same
  obtain ⟨minor, same⟩ := append_inj_of_head (digits _) (digits _) (dot _) (dot _) (List.cons.inj same).2
  obtain ⟨patch, rest⟩ := append_inj_of_head (digits _) (digits _) next next' (List.cons.inj same).2
  exact ⟨⟨digits_injective major, digits_injective minor, digits_injective patch⟩, rest⟩

/-- The build part is read off what is before it in one way. -/
lemma build_inj {a a' : List Char} (noPlus : '+' ∉ a) (noPlus' : '+' ∉ a')
    (same : a ++ v.buildText = a' ++ w.buildText) :
    a = a' ∧ v.build = w.build := by
  have next (v : Version) : ∀ c ∈ v.buildText.head?, (c != '+') = false := by
    intro c first
    rw [head_partText c first]
    rfl
  have others {a : List Char} (noPlus : '+' ∉ a) : ∀ c ∈ a, (c != '+') = true := by
    intro c mem
    rw [bne_iff_ne]
    rintro rfl
    exact noPlus mem
  obtain ⟨start, build⟩ := append_inj_of_head (others noPlus) (others noPlus') (next v) (next w) same
  exact ⟨start, partText_injective v.isBuild w.isBuild build⟩

lemma head_tail_not_digit (v : Version) : ∀ c ∈ (v.preText ++ v.buildText).head?, c.isDigit = false := by
  intro c first
  rcases v.head_tail c first with rfl | rfl
  · decide
  · decide

/-- A version is read off its text in one way. -/
theorem text_injective (same : v.text = w.text) : v = w := by
  obtain ⟨⟨major, minor, patch⟩, tail⟩ := core_inj v.head_tail_not_digit w.head_tail_not_digit same
  obtain ⟨pre, build⟩ := build_inj v.plus_notMem_preText w.plus_notMem_preText tail
  have are (v : Version) : ∀ i ∈ v.pre, IsIdentifier i := fun i known => (v.isPre i known).1
  exact Version.ext major minor patch (partText_injective (are v) (are w) pre) build

instance decidableEq : DecidableEq Version := fun v w => decidable_of_iff (v.text = w.text) ⟨text_injective, congrArg text⟩

/-- A version's text ends in that of another one behind a dash just where its pre-release or its build part does. -/
theorem endsIn_iff {start : List Char} : v.EndsIn start w ↔ v.text = start ++ '-' :: w.text := by
  constructor
  · intro ends
    cases ends with
    | pre pre build =>
      rw [text, pre, text, buildText, buildText, build]
      simp
    | build build =>
      rw [text, build]
      simp
  · intro whole
    rw [text] at whole
    obtain ⟨before, rfl, tail⟩ := split_behind (v.not_mem_core (by decide) (by decide)) whole
    rcases List.append_eq_append_iff.mp tail with ⟨inBuild, rfl, build⟩ | ⟨behind, pre, rest⟩
    · exact .build build
    · cases behind with
      | nil =>
        -- a build part does not start with a dash
        have sign : ∀ c ∈ v.buildText.head?, c = '+' := head_partText
        rw [← List.nil_append v.buildText, ← rest] at sign
        exact absurd (sign '-' rfl) (by decide)
      | cons c behind =>
        obtain ⟨dash, rest⟩ := List.cons.inj rest
        rw [← dash] at pre
        rw [text, ← List.append_assoc] at rest
        have noPlus : '+' ∉ w.core ++ w.preText := by
          rw [List.mem_append, not_or]
          exact ⟨w.not_mem_core (by decide) (by decide), w.plus_notMem_preText⟩
        have noPlus' : '+' ∉ behind := by
          intro mem
          apply v.plus_notMem_preText
          rw [pre]
          exact List.mem_append_right before (List.mem_cons_of_mem _ mem)
        obtain ⟨same, build⟩ := build_inj noPlus noPlus' rest
        rw [← same] at pre
        exact .pre pre build

end Version

end ArchipelagoXL.SemVersion
