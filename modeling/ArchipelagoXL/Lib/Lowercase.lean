import Mathlib.Data.Nat.Notation
import Mathlib.Tactic.Common

/-!
# Lowercased texts

Rust's `to_lowercase` for any text. What becomes of a character is found in the Unicode tables; only a capital
sigma depends on what stands around it, since at the end of a word it has another small letter. So a text is
lowercased up to a character that ends a word no matter what follows (`lowerFrom_append`).
-/

namespace ArchipelagoXL.Lowercase

/-- The Unicode tables. -/
structure CaseTables where
  toLower : Char → List Char
  isCased : Char → Bool
  isCaseIgnorable : Char → Bool
  ascii : ∀ c : Char, c.toNat < 128 → toLower c = [c.toLower]
  cased_underscore : isCased '_' = false
  ignorable_underscore : isCaseIgnorable '_' = false

/-- The tables of ASCII. -/
def asciiTables : CaseTables where
  toLower c := [c.toLower]
  isCased c := c.isAlpha
  isCaseIgnorable c := [0x27, 0x2e, 0x3a, 0x5e, 0x60].contains c.toNat
  ascii _ _ := rfl
  cased_underscore := by decide
  ignorable_underscore := by decide

section
variable (tables : CaseTables)

/-- Rust `case_ignorable_then_cased`. -/
def CaseTables.caseIgnorableThenCased (chars : List Char) : Bool :=
  match chars.find? fun c => !tables.isCaseIgnorable c with
  | some c => tables.isCased c
  | none => false

/-- Rust `map_uppercase_sigma`; the text before it is reversed. -/
def CaseTables.mapUppercaseSigma (before after : List Char) : Char :=
  if tables.caseIgnorableThenCased before && !tables.caseIgnorableThenCased after then 'ς' else 'σ'

/-- The loop of `to_lowercase`, after a reversed text. -/
def CaseTables.lowerFrom : List Char → List Char → List Char
  | _, [] => []
  | before, c :: rest =>
    (if c = 'Σ' then [tables.mapUppercaseSigma before rest] else tables.toLower c) ++ lowerFrom (c :: before) rest

/-- Rust `to_lowercase`. -/
def CaseTables.toLowercase (s : String) : String := String.ofList (tables.lowerFrom [] s.toList)

end

variable {tables : CaseTables}

/-- An underscore ends a word. -/
lemma caseIgnorableThenCased_append (chars rest : List Char) :
    tables.caseIgnorableThenCased (chars ++ '_' :: rest) = tables.caseIgnorableThenCased (chars ++ ['_']) := by
  have found : ∀ rest : List Char, (chars ++ '_' :: rest).find? (fun c => !tables.isCaseIgnorable c) =
      (chars.find? fun c => !tables.isCaseIgnorable c).or (some '_') := by
    intro rest
    rw [List.find?_append, List.find?_cons_of_pos]
    rw [tables.ignorable_underscore]
    rfl
  rw [CaseTables.caseIgnorableThenCased, CaseTables.caseIgnorableThenCased, found, found]

/-- What is before an underscore does not depend on what is after it. -/
lemma lowerFrom_append (before chars rest : List Char) :
    tables.lowerFrom before (chars ++ '_' :: rest) =
      tables.lowerFrom before (chars ++ ['_']) ++ tables.lowerFrom ('_' :: (chars.reverse ++ before)) rest := by
  induction chars generalizing before with
  | nil =>
    rw [List.nil_append, List.nil_append, CaseTables.lowerFrom, CaseTables.lowerFrom, CaseTables.lowerFrom,
      List.append_nil]
    rfl
  | cons c chars ih =>
    have sigma : tables.mapUppercaseSigma before (chars ++ '_' :: rest) =
        tables.mapUppercaseSigma before (chars ++ ['_']) := by
      rw [CaseTables.mapUppercaseSigma, CaseTables.mapUppercaseSigma, caseIgnorableThenCased_append]
    rw [List.cons_append, List.cons_append, CaseTables.lowerFrom, CaseTables.lowerFrom, ih, sigma, List.append_assoc,
      List.reverse_cons, List.append_assoc]
    rfl

/-- ASCII texts are lowercased character by character. -/
lemma lowerFrom_of_ascii {chars : List Char} (ascii : ∀ c ∈ chars, c.toNat < 128) (before : List Char) :
    tables.lowerFrom before chars = chars.map Char.toLower := by
  induction chars generalizing before with
  | nil => rfl
  | cons c chars ih =>
    obtain ⟨here, later⟩ := List.forall_mem_cons.mp ascii
    have noSigma : c ≠ 'Σ' := by
      rintro rfl
      exact absurd here (by decide)
    rw [CaseTables.lowerFrom, if_neg noSigma, tables.ascii c here, ih later]
    rfl

lemma toLowercase_of_ascii {s : String} (ascii : ∀ c ∈ s.toList, c.toNat < 128) :
    tables.toLowercase s = String.ofList (s.toList.map Char.toLower) := by
  rw [CaseTables.toLowercase, lowerFrom_of_ascii ascii]

end ArchipelagoXL.Lowercase
