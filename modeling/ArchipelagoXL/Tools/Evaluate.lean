import Mathlib.Tactic.NormNum
import ArchipelagoXL.Lib.Uuid
import ArchipelagoXL.Tools.Triggers
import ArchipelagoXL.Tools.Rules

/-!
# Reviewing a YAML

What the tools make of a YAML of a room: the games it can roll, each rule on each of them, and the results that
are worth a look. The lobby reads the same field of the document when it says which games a YAML can roll;
there a weight is a double, here an integer.

The library that finds the documents of a text, the loop that settles triggers and the built-in rules are
parameters.
-/

namespace ArchipelagoXL.Tools

/-! ## The lobby's reading -/

namespace F64

/-- The double next to a natural number; of two as near the one with an even last bit. -/
def roundNat (n : ℕ) : ℕ :=
  if n < 2 ^ 53 then n
  else
    let unit := 2 ^ (n.log2 - 52)
    let down := n / unit
    let rest := n % unit
    (if 2 * rest < unit ∨ (2 * rest = unit ∧ down % 2 = 0) then down else down + 1) * unit

/-- Rust `as f64`, for an integer. -/
def ofInt (i : ℤ) : F64 := .finite (if i < 0 then -(roundNat i.natAbs : ℚ) else (roundNat i.natAbs : ℚ))

/-- Rust `weight != 0.`; what is no number is not zero. -/
def nonZero : F64 → Bool
  | .finite q => q != 0
  | .infinite _ | .nan => true

/-- Rust `weight >= 1.0`. -/
def atLeastOne : F64 → Bool
  | .finite q => decide (1 ≤ q)
  | .infinite negative => !negative
  | .nan => false

end F64

/-- The `YamlGame` of the lobby, with its doubles as the numbers they are; the map as its entries. -/
inductive YamlGame where
  | name (n : String)
  | map (m : List (String × F64))

structure YamlFile where
  game : YamlGame
  name : String

def readWeight : Value → Option F64
  | .integer i => some (F64.ofInt i)
  | .floatingPoint f => some f
  | _ => none

def readEntry (e : Value × Value) : Option (String × F64) := do
  let name ← e.1.asStr
  let weight ← readWeight e.2
  return (name, weight)

/-- A name, or a mapping from names to numbers. -/
def readGame : Value → Option YamlGame
  | .string n => some (.name n)
  | .mapping entries => (entries.mapM readEntry).map .map
  | _ => none

/-- What the lobby takes from a document (Rust `read_yaml::<YamlFile>`). -/
def readYaml (yaml : Value) : Option YamlFile := do
  let game ← (yaml.asMappingGet "game").bind readGame
  let name ← (yaml.asMappingGet "name").bind Value.asStr
  return ⟨game, name⟩

/-- Rust `validate_game`. -/
def validateGame : YamlGame → Except String String
  | .name n => .ok n
  | .map m =>
    match m.filter fun e => e.2.atLeastOne with
    | [] => .error "Your YAML contains games but none of them has any chance of getting rolled"
    | [e] => .ok e.1
    | l => .ok ("Random (" ++ toString l.length ++ ")")

/-- Rust `games_of_yaml`, on the document of the YAML. -/
def gamesOfYaml (yaml : Value) : List String :=
  match readYaml yaml with
  | none => []
  | some ⟨.name n, _⟩ => [n]
  | some ⟨.map m, _⟩ => (m.filter fun e => e.2.nonZero).map Prod.fst

/-! ## The review -/

/-- A YAML of a room, as the lobby hands it over. -/
structure BulkYamlInfo where
  id : Uuid
  playerName : String
  discordHandle : String
  discordId : String
  game : String
  content : String
  createdAt : String

/-- Rust `BuiltinRule::evaluate`: of a document, a game, a player and the players of the room. -/
abbrev BuiltinRule := Value → String → String → List String → RuleResult

/-- The names with a weight that is an integer and not zero. -/
def weighedNames (entries : List (Value × Value)) : List String :=
  (entries.filter fun e => e.2.asInteger.getD 0 != 0).filterMap fun e => e.1.asStr

def extractGameNames (yaml : Value) : List String :=
  match yaml.asMappingGet "game" with
  | none => []
  | some gameVal =>
    match gameVal.asStr, gameVal.asMapping with
    | some name, _ => [name]
    | none, some entries => weighedNames entries
    | none, none => []

/-- The games that are reviewed: where none is found, what the lobby shows for the game. -/
def gameNames (info : BulkYamlInfo) (yaml : Value) : List String :=
  if extractGameNames yaml = [] then [info.game] else extractGameNames yaml

lemma F64.nonZero_of_atLeastOne {f : F64} (heavy : f.atLeastOne = true) : f.nonZero = true := by
  cases f with
  | finite q =>
    rw [atLeastOne, decide_eq_true_iff] at heavy
    rw [nonZero, bne_iff_ne]
    exact (lt_of_lt_of_le one_pos heavy).ne'
  | infinite negative => rfl
  | nan => rfl

/-- Rolling can give the game: it is the one that is named, or has a weight that is not zero. -/
def YamlGame.CanRoll (g : String) : YamlGame → Prop
  | name n => n = g
  | map m => ∃ weight, (g, weight) ∈ m ∧ weight.nonZero = true

/-- The document names the game, or gives it a weight that is an integer and not zero. -/
inductive WholeWeight (yaml : Value) (g : String) : Prop where
  | named : yaml.asMappingGet "game" = some (.string g) → WholeWeight yaml g
  | weighed {entries : List (Value × Value)} {i : ℤ} :
    yaml.asMappingGet "game" = some (.mapping entries) → (.string g, .integer i) ∈ entries → i ≠ 0 →
    WholeWeight yaml g

section
variable {yaml : Value} {parsed : YamlFile} {g : String}

lemma mem_weighedNames {entries : List (Value × Value)} :
    g ∈ weighedNames entries ↔ ∃ i, (.string g, .integer i) ∈ entries ∧ i ≠ 0 := by
  rw [weighedNames, List.mem_filterMap]
  constructor
  · rintro ⟨⟨key, weight⟩, mem, isName⟩
    obtain ⟨mem, kept⟩ := List.mem_filter.1 mem
    rw [bne_iff_ne] at kept
    cases key with
    | string n =>
      cases isName
      cases weight with
      | integer i => exact ⟨i, mem, kept⟩
      | _ => exact absurd rfl kept
    | _ => cases isName
  · rintro ⟨i, mem, positive⟩
    exact ⟨_, List.mem_filter.2 ⟨mem, bne_iff_ne.2 positive⟩, rfl⟩

lemma mem_extractGameNames : g ∈ extractGameNames yaml ↔ WholeWeight yaml g := by
  have other : ∀ v, yaml.asMappingGet "game" = some v → v.asStr = none → v.asMapping = none →
      ¬ WholeWeight yaml g := by
    intro v found noStr noMap whole
    cases whole with
    | named here =>
      cases found.symm.trans here
      cases noStr
    | weighed here =>
      cases found.symm.trans here
      cases noMap
  rw [extractGameNames]
  cases found : yaml.asMappingGet "game" with
  | none =>
    refine iff_of_false List.not_mem_nil fun whole => ?_
    cases whole with
    | named here => cases found.symm.trans here
    | weighed here => cases found.symm.trans here
  | some v =>
    cases v with
    | string n =>
      constructor
      · intro mem
        rw [List.mem_singleton.1 mem]
        exact .named found
      · intro whole
        cases whole with
        | named here =>
          cases found.symm.trans here
          exact List.mem_singleton_self g
        | weighed here => cases found.symm.trans here
    | mapping entries =>
      refine mem_weighedNames.trans ⟨?_, ?_⟩
      · rintro ⟨i, mem, positive⟩
        exact .weighed found mem positive
      · intro whole
        cases whole with
        | named here => cases found.symm.trans here
        | weighed here mem positive =>
          cases found.symm.trans here
          exact ⟨_, mem, positive⟩
    | _ => exact iff_of_false List.not_mem_nil (other _ found rfl rfl)

end

/-! ## The sections with the analysis -/

section
variable {load : String → Option (List Value)} {settle : Value → Value} {re : RegexLib}
variable {info : BulkYamlInfo} {customRules : List Rule} {activeBuiltins : List BuiltinRule}
variable {roomYamls : List String} {analysis : Option YamlAnalysisStatus} {yaml : Value} {name : String}

end

/-! ## Every game is reviewed -/

section
variable {load : String → Option (List Value)} {settle : Value → Value} {re : RegexLib}
variable {info : BulkYamlInfo} {yaml : Value} {parsed : YamlFile}

lemma mem_gameNames {g : String} :
    g ∈ gameNames info yaml ↔ WholeWeight yaml g ∨ g = info.game ∧ ∀ h, ¬ WholeWeight yaml h := by
  rw [gameNames]
  split
  case isTrue none =>
    have noWhole : ∀ h, ¬ WholeWeight yaml h := by
      intro h whole
      rw [← mem_extractGameNames, none] at whole
      cases whole
    rw [List.mem_singleton]
    constructor
    · intro same
      exact .inr ⟨same, noWhole⟩
    · rintro (whole | ⟨same, _⟩)
      · exact (noWhole g whole).elim
      · exact same
  case isFalse some =>
    obtain ⟨h, mem⟩ := List.exists_mem_of_ne_nil _ some
    rw [mem_extractGameNames]
    refine ⟨.inl, ?_⟩
    rintro (whole | ⟨_, noWhole⟩)
    · exact whole
    · exact (noWhole h (mem_extractGameNames.1 mem)).elim

end

/-! ## Two games -/

/-- A YAML of two games, with death link on in the second. -/
def twoGames (first second : Value) : Value :=
  .mapping [(.string "name", .string "Player"),
    (.string "game", .mapping [(.string "Ape Escape", first), (.string "Tunic", second)]),
    (.string "Ape Escape", .mapping [(.string "death_link", .boolean false)]),
    (.string "Tunic", .mapping [(.string "death_link", .boolean true)])]

end ArchipelagoXL.Tools
