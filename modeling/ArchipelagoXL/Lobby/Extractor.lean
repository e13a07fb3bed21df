import ArchipelagoXL.Apwm.Index
import ArchipelagoXL.Lib.Tally
import ArchipelagoXL.Tools.Evaluate

/-!
# Features of a YAML

What the lobby finds out about a YAML before anything is rolled: for each feature how likely it is to be on, in parts
of ten thousand. The games that can be rolled are gone through one after the other with their share of the weights.
In each of them some options stand for features, and each option that can turn a feature on makes it likelier.

Ratios are rational numbers, cut off where the code casts them. Sums of the weights of an option wrap around, as they
do in a release build. The arithmetic on the weights of features is checked: in a debug build an overflow is a panic,
in a release build the number that is kept is none of the kind.
-/

namespace ArchipelagoXL.Tools.F64

/-! ## Arithmetic of doubles -/

def add : F64 → F64 → F64
  | .finite a, .finite b => .finite (a + b)
  | .finite _, .infinite b => .infinite b
  | .infinite a, .finite _ => .infinite a
  | .infinite a, .infinite b => if a = b then .infinite a else .nan
  | .nan, _ | _, .nan => .nan

/-- A zero has no sign. -/
def div : F64 → F64 → F64
  | .finite a, .finite b => if b ≠ 0 then .finite (a / b) else if a = 0 then .nan else .infinite (decide (a < 0))
  | .finite _, .infinite _ => .finite 0
  | .infinite a, .finite b => .infinite (a != decide (b < 0))
  | .infinite _, .infinite _ => .nan
  | .nan, _ | _, .nan => .nan

/-- Rust `as u32`, after a multiplication by a positive number. -/
def timesAsU32 (n : ℕ) : F64 → ℕ
  | .finite q => min (q * n).floor.toNat (2 ^ 32 - 1)
  | .infinite negative => if negative then 0 else 2 ^ 32 - 1
  | .nan => 0

end ArchipelagoXL.Tools.F64

namespace ArchipelagoXL.Lobby

open Tools (Value F64 isTrueish)
open Apwm (Index)

/-! ## The extractor -/

inductive YamlFeature where
  | deathLink
  | trainerSanity
  | dexSanity
  | orbSanity
  | grassSanity
  | fishSanity
  | coinSanity
  | deathWish
  | deathWishWithBonus
  | afterDark
  | blockSanity
deriving DecidableEq

abbrev YamlFeatures := AList fun _ : YamlFeature => ℕ

abbrev YamlGameFeatures := AList fun _ : String => YamlFeatures

def maxWeight : ℕ := 10000

/-- The ways in which an extraction ends early: an `Err`, or one of its panics. -/
inductive Stop where
  | error (e : String)
  | overflow
  | assertion (weight : ℕ)
  | noGame

structure Extractor where
  gameFeatures : YamlGameFeatures
  currentGame : Option (String × Value × ℕ)
  currentWeight : ℕ
  yaml : Value

def checkedSub (a b : ℕ) : Except Stop ℕ := if b ≤ a then .ok (a - b) else .error .overflow

def checkedMul (a b : ℕ) : Except Stop ℕ := if a * b < 2 ^ 32 then .ok (a * b) else .error .overflow

/-- Rust `sum::<u32>`. -/
def sumU32 (l : List ℕ) : Except Stop ℕ := if l.sum < 2 ^ 32 then .ok l.sum else .error .overflow

/-- A ratio in parts of `MAX_WEIGHT`. -/
def parts (part whole : F64) : ℕ := (part.div whole).timesAsU32 maxWeight

/-- Rust `sum::<i64>`, of which the partial sums wrap around. -/
def wrapI64 (sum : ℤ) : F64 := .finite (sum.bmod (2 ^ 64))

/-- The weights of the entries whose value is an integer. -/
def integerWeights (entries : List (Value × Value)) : List ℤ := entries.filterMap fun e => e.2.asInteger

mutual

/-- The free function `get_option_probability`, which never fails. -/
def optionProbability (isTrue : Value → Bool) : Value → ℕ
  | .mapping entries =>
    if isTrue (.mapping entries) then maxWeight
    else parts (wrapI64 (onCount isTrue entries)) (wrapI64 (integerWeights entries).sum)
  | option => if isTrue option then maxWeight else 0

def onCount (isTrue : Value → Bool) : List (Value × Value) → ℤ
  | [] => 0
  | (key, value) :: rest =>
    (match value.asInteger with
      | some v => if v ≠ 0 ∧ optionProbability isTrue key ≠ 0 then v else 0
      | none => 0) + onCount isTrue rest

end

/-- What `get_option_map` does with an entry: `v as u32` keeps the low 32 bits. -/
def insertOption (transform : Value → Except String ℕ) (ret : AList fun _ : ℕ => ℕ) (e : Value × Value) :
    AList fun _ : ℕ => ℕ :=
  match transform e.1, e.2.asInteger with
  | .ok key, some v => if v ≠ 0 then ret.insert key (v % 2 ^ 32).toNat else ret
  | _, _ => ret

def getOptionMap (option : Value) (transform : Value → Except String ℕ) : Except String (AList fun _ : ℕ => ℕ) :=
  match transform option with
  | .ok value => .ok (AList.singleton value maxWeight)
  | .error _ =>
    match option.asMapping with
    | none => .error "Option should either be value or a mapping of the same type"
    | some map => .ok (map.foldl (insertOption transform) ∅)

namespace Extractor

def new (yaml : Value) : Except Stop Extractor :=
  match yaml.asMapping with
  | none => .error (.error "The main body of the YAML should be a map")
  | some _ => .ok ⟨∅, none, maxWeight, yaml⟩

def getOptionProbability (self : Extractor) (path : String) (isTrue : Value → Bool) : Except Stop ℕ :=
  match self.currentGame with
  | none => .error .noGame
  | some (_, gameYaml, _) =>
    match gameYaml.asMappingGet path with
    | none => .ok 0
    | some option => .ok (optionProbability isTrue option)

/-- A probability with the share of the game and the current weight. -/
def weighted (probability gameProbability currentWeight : ℕ) : ℕ :=
  F64.timesAsU32 1 (.finite (probability * (gameProbability / maxWeight) * (currentWeight / maxWeight)))

def getWeightedProbability (self : Extractor) (probability : ℕ) : Except Stop ℕ :=
  match self.currentGame with
  | none => .error .noGame
  | some (_, _, gameProbability) => .ok (weighted probability gameProbability self.currentWeight)

def addFeatureToCurrentGame (self : Extractor) (feature : YamlFeature) (featureProbability : ℕ) :
    Except Stop Extractor :=
  match self.currentGame with
  | none => .error .noGame
  | some (gameName, _, _) => do
    let featureProbability ← self.getWeightedProbability featureProbability
    if featureProbability ≠ 0 then
      let currentGameFeatures := (self.gameFeatures.lookup gameName).getD ∅
      let currentValue := (currentGameFeatures.lookup feature).getD 0
      let notCurrent ← checkedSub maxWeight currentValue
      let notNew ← checkedSub maxWeight featureProbability
      let product ← checkedMul notCurrent notNew
      let newValue ← checkedSub maxWeight (product / maxWeight)
      return { self with
        gameFeatures := self.gameFeatures.insert gameName (currentGameFeatures.insert feature newValue) }
    else return self

def registerFeatureWithCustomTruth (self : Extractor) (feature : YamlFeature) (path : String)
    (isTrue : Value → Bool) : Except Stop Extractor := do
  let probability ← self.getOptionProbability path isTrue
  self.addFeatureToCurrentGame feature probability

def registerFeature (self : Extractor) (feature : YamlFeature) (path : String) : Except Stop Extractor :=
  self.registerFeatureWithCustomTruth feature path isTrueish

def registerRangedFeature (self : Extractor) (feature : YamlFeature) (path : String) (min max : ℕ)
    (transform : Value → Except String ℕ) : Except Stop Extractor :=
  match self.currentGame with
  | none => .error .noGame
  | some (_, gameYaml, _) =>
    match gameYaml.asMappingGet path with
    | none => .ok self
    | some option => do
      let map ← (getOptionMap option transform).mapError .error
      let total ← sumU32 (map.entries.map fun e => e.2)
      let probability ← sumU32 ((map.entries.filter fun e => e.1 < min || max < e.1).map fun e => e.2)
      self.addFeatureToCurrentGame feature (parts (.finite probability) (.finite total))

def withWeight (self : Extractor) (weight : ℕ) (inner : Extractor → Except Stop Extractor) : Except Stop Extractor :=
  if weight ≤ maxWeight then do
    let self ← inner { self with currentWeight := weight }
    return { self with currentWeight := maxWeight }
  else .error (.assertion weight)

def setGame (self : Extractor) (gameName : String) (probability : ℕ) : Except Stop Extractor :=
  match self.yaml.asMappingGet gameName with
  | none => .error (.error ("The requested game isn't present in the YAML: " ++ gameName))
  | some gameYaml => .ok { self with currentGame := some (gameName, gameYaml, probability) }

/-- Adds up what the games have of each feature. -/
def finalize (self : Extractor) : Except Stop YamlFeatures :=
  Tally.tally (2 ^ 32) .overflow
    (self.gameFeatures.entries.flatMap fun game => game.2.entries.map fun e => (e.1, e.2)) ∅

end Extractor

/-! ## The extractors -/

/-- Rust `parse::<u64>`. -/
def parseU64 (s : String) : Option ℕ :=
  let digits := if s.toList.head? = some '+' then s.toList.drop 1 else s.toList
  (Tools.parseDigits digits).filter fun n => n < 2 ^ 64

/-- Rust `as u64`, of an `i64`. -/
def asU64 (i : ℤ) : ℕ := (i % 2 ^ 64).toNat

abbrev Extraction := Extractor → Except Stop Extractor

/-- The extractor of all games. -/
def defaultExtractFeatures {V : Type} [LinearOrder V] (index : Index V) : Extraction := fun extractor =>
  match extractor.currentGame with
  | none => .error .noGame
  | some (gameName, _, _) => do
    let afterDark := (index.getWorldByName gameName).any fun world => world.tags.contains .afterDark
    let extractor ← if afterDark then extractor.addFeatureToCurrentGame .afterDark maxWeight else .ok extractor
    let extractor ← extractor.registerFeature .deathLink "death_link"
    let extractor ← extractor.registerFeature .deathLink "deathlink"
    extractor.registerFeature .deathLink "DeathLink"

namespace Ahit

def extractFeatures : Extraction := fun extractor => do
  let deathwishProbability ← extractor.getOptionProbability "EnableDeathWish" isTrueish
  extractor.withWeight deathwishProbability fun extractor => do
    let extractor ← extractor.addFeatureToCurrentGame .deathWish maxWeight
    extractor.registerFeature .deathWishWithBonus "DWEnableBonus"

end Ahit

namespace DlcQuest

def coinValueToU64 (value : Value) : Except String ℕ :=
  match value.asInteger, value.asStr with
  | some value, _ => .ok (asU64 value)
  | none, none => .error "Invalid coin option value."
  | none, some value =>
    match parseU64 value with
    | some num => .ok num
    | none =>
      if value = "low" then .ok 5
      else if value = "normal" then .ok 20
      else if value = "high" then .ok 50
      -- of a random value the worst is taken
      else .ok 1

def extractFeatures : Extraction := fun extractor => do
  let coinsanityWeight ← extractor.getOptionProbability "coinsanity" fun value => value.asStr == some "coin"
  extractor.withWeight coinsanityWeight fun extractor =>
    extractor.registerRangedFeature .coinSanity "coinbundlequantity" 5 50 coinValueToU64

end DlcQuest

namespace JakAndDaxter

def orbValueToU64 (value : Value) : Except String ℕ :=
  match value.asStr with
  | none => .error "Invalid orb option value"
  | some value =>
    match (Tools.splitAt '_' value).head? with
    | none => .error "Invalid orb option value. Should be x_orb(s)"
    | some value =>
      match parseU64 value with
      | some num => .ok num
      -- nobody sees which text this error has
      | none => .error "invalid digit found in string"

def extractFeatures : Extraction := fun extractor => do
  let globalOrbsanityWeight ←
    extractor.getOptionProbability "enable_orbsanity" fun value => value.asStr == some "global"
  let extractor ← extractor.withWeight globalOrbsanityWeight fun extractor =>
    extractor.registerRangedFeature .orbSanity "global_orbsanity_bundle_size" 10 200 orbValueToU64
  let perLevelWeight ←
    extractor.getOptionProbability "enable_orbsanity" fun value => value.asStr == some "per_level"
  extractor.withWeight perLevelWeight fun extractor =>
    extractor.registerRangedFeature .orbSanity "level_orbsanity_bundle_size" 10 200 orbValueToU64

end JakAndDaxter

def KingdomHearts.extractFeatures : Extraction := fun extractor => do
  let extractor ← extractor.registerFeature .deathLink "donald_death_link"
  extractor.registerFeature .deathLink "goofy_death_link"

def PokemonEmerald.extractFeatures : Extraction := fun extractor => do
  let extractor ← extractor.registerFeature .trainerSanity "trainersanity"
  extractor.registerFeature .dexSanity "dexsanity"

namespace PokemonCrystal

def grasssanity (value : Value) : Bool :=
  match value.asStr with
  | none => false
  | some grasssanity => grasssanity != "off"

def extractFeatures : Extraction := fun extractor => do
  let extractor ← extractor.registerFeature .trainerSanity "trainersanity"
  let extractor ← extractor.registerFeature .trainerSanity "kanto_trainersanity"
  let extractor ← extractor.registerFeature .trainerSanity "johto_trainersanity"
  let extractor ← extractor.registerFeature .dexSanity "dexsanity"
  let extractor ← extractor.registerFeature .dexSanity "dexcountsanity"
  extractor.registerFeatureWithCustomTruth .grassSanity "grasssanity" grasssanity

end PokemonCrystal

def PokemonFrLg.extractFeatures : Extraction := fun extractor => do
  let extractor ← extractor.registerFeature .trainerSanity "trainersanity"
  extractor.registerFeature .dexSanity "dexsanity"

def PokemonBW.extractFeatures : Extraction := fun extractor =>
  extractor.registerFeature .dexSanity "dexsanity"

def PokemonRB.extractFeatures : Extraction := fun extractor => do
  let extractor ← extractor.registerFeature .trainerSanity "trainersanity"
  extractor.registerFeature .dexSanity "dexsanity"

def Sml2.extractFeatures : Extraction := fun extractor => extractor.registerFeature .coinSanity "coinsanity"

def Smw.extractFeatures : Extraction := fun extractor => extractor.registerFeature .blockSanity "blocksanity"

namespace StardewValley

def fishsanity (value : Value) : Bool :=
  match value.asStr with
  | none => false
  | some fishsanity => fishsanity != "none"

def extractFeatures : Extraction := fun extractor =>
  extractor.registerFeatureWithCustomTruth .fishSanity "fishsanity" fishsanity

end StardewValley

def Tunic.extractFeatures : Extraction := fun extractor => extractor.registerFeature .grassSanity "grass_randomizer"

namespace FFXIV

def fishsanityTrueish (value : Value) : Bool :=
  isTrueish value || value.asStr.any fun v => "_fish".toList.isSuffixOf v.toList

def extractFeatures : Extraction := fun extractor =>
  extractor.registerFeatureWithCustomTruth .fishSanity "fishsanity" fishsanityTrueish

end FFXIV

/-- The static `EXTRACTORS`. -/
def extractors : List (String × Extraction) := [
  ("A Hat in Time", Ahit.extractFeatures),
  ("DLCQuest", DlcQuest.extractFeatures),
  ("Pokemon Red and Blue", PokemonRB.extractFeatures),
  ("Pokemon Emerald", PokemonEmerald.extractFeatures),
  ("Pokemon Crystal", PokemonCrystal.extractFeatures),
  ("Pokemon FireRed and LeafGreen", PokemonFrLg.extractFeatures),
  ("Pokemon Black and White", PokemonBW.extractFeatures),
  ("Jak and Daxter: The Precursor Legacy", JakAndDaxter.extractFeatures),
  ("TUNIC", Tunic.extractFeatures),
  ("Kingdom Hearts", KingdomHearts.extractFeatures),
  ("Stardew Valley", StardewValley.extractFeatures),
  ("Super Mario Land 2", Sml2.extractFeatures),
  ("Super Mario World", Smw.extractFeatures),
  ("Manual_FFXIV_Silasary", FFXIV.extractFeatures)]

/-! ## All games of a YAML -/

variable {V : Type} [LinearOrder V]

def extractFeaturesFromYaml (index : Index V) (extractor : Extractor) (gameName : String) (probability : ℕ) :
    Except Stop Extractor := do
  let extractor ← extractor.setGame gameName probability
  let extractor ← defaultExtractFeatures index extractor
  match extractors.lookup gameName with
  | none => return extractor
  | some extractFeatures => extractFeatures extractor

/-- The turn of a game; `total` is the sum of all weights. -/
def extractWeightedGame (index : Index V) (total : F64) (extractor : Extractor) (e : String × F64) :
    Except Stop Extractor :=
  if e.2.nonZero then extractFeaturesFromYaml index extractor e.1 (parts e.2 total) else .ok extractor

/-- Rust `sum::<f64>`. -/
def sumF64 (weights : List F64) : F64 := weights.foldl F64.add (.finite 0)

/-- `docs` are the documents that are found in the text. -/
def extractFeatures (index : Index V) (game : Tools.YamlGame) (docs : Except String (List Value)) :
    Except Stop YamlFeatures := do
  let docs ← docs.mapError .error
  match docs with
  | [] => .error (.error "No YAML document found")
  | yaml :: _ =>
    let extractor ← Extractor.new yaml
    let extractor ← match game with
      | .name name => extractFeaturesFromYaml index extractor name maxWeight
      | .map map => map.foldlM (extractWeightedGame index (sumF64 (map.map Prod.snd))) extractor
    extractor.finalize

end ArchipelagoXL.Lobby
