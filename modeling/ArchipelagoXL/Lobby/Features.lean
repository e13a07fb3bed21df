import ArchipelagoXL.Lobby.Extractor
import ArchipelagoXL.Lobby.Games

/-!
# Weights of features

The weights of the features of a YAML are meant to be probabilities. What an extraction comes to depends on a list of
steps that can be read off the YAML and the weights of its games: the options that are looked at, with the chance that
each of them turns its feature on. The weights are probabilities as long as each of these chances is one and, for each
feature, the games' chances to have it add up to at most one. Negative weights break the first condition, and two
options for one feature the second one, since it is the chance within the share of a game that an option adds to.
-/

namespace ArchipelagoXL.Lobby.Features

open Tools (Value F64 isTrueish)
open Apwm (Index)
open Tally (count total)

/-! ## The steps of an extraction -/

/-- How an option of a game stands for a feature. -/
inductive Registration where
  | always (feature : YamlFeature)
  | flag (feature : YamlFeature) (path : String) (isOn : Value → Bool)
  | range (feature : YamlFeature) (path : String) (min max : ℕ) (transform : Value → Except String ℕ)

/-- Options that count as far as another option is on. -/
structure Group where
  gate : Option (String × (Value → Bool))
  registrations : List Registration

/-- What an extraction comes across. -/
inductive Step where
  | refuse (e : String)
  | gate (weight : ℕ)
  | sum (n : ℕ)
  | add (game : String) (feature : YamlFeature) (chance : ℕ)

/-- The chance that an option of a game is on. -/
def chanceOf (gameYaml : Value) (path : String) (isOn : Value → Bool) : ℕ :=
  match gameYaml.asMappingGet path with
  | none => 0
  | some option => optionProbability isOn option

/-- The weights outside of a range. -/
def outside (min max : ℕ) (map : AList fun _ : ℕ => ℕ) : List ℕ :=
  (map.entries.filter fun e => e.1 < min || max < e.1).map fun e => e.2

def Registration.steps (game : String) (gameYaml : Value) (share weight : ℕ) : Registration → List Step
  | .always feature => [.add game feature (Extractor.weighted maxWeight share weight)]
  | .flag feature path isOn =>
    [.add game feature (Extractor.weighted (chanceOf gameYaml path isOn) share weight)]
  | .range feature path min max transform =>
    match gameYaml.asMappingGet path with
    | none => []
    | some option =>
      match getOptionMap option transform with
      | .error e => [.refuse e]
      | .ok map =>
        let all : ℕ := (map.entries.map fun e => e.2).sum
        let chance := parts (.finite (outside min max map).sum) (.finite all)
        [.sum all, .add game feature (Extractor.weighted chance share weight)]

def Group.steps (game : String) (gameYaml : Value) (share : ℕ) (group : Group) : List Step :=
  match group.gate with
  | none => group.registrations.flatMap fun r => r.steps game gameYaml share maxWeight
  | some (path, isOn) =>
    let weight := chanceOf gameYaml path isOn
    .gate weight :: group.registrations.flatMap fun r => r.steps game gameYaml share weight

def Registration.trueish (feature : YamlFeature) (path : String) : Registration := .flag feature path isTrueish

/-- The options that stand for features in every game. -/
def defaultGroup (afterDark : Bool) : Group :=
  ⟨none, (if afterDark then [.always .afterDark] else []) ++
    ["death_link", "deathlink", "DeathLink"].map (Registration.trueish .deathLink)⟩

/-- The options that stand for features in some games. -/
def groups : List (String × List Group) := [
  ("A Hat in Time", [⟨some ("EnableDeathWish", isTrueish),
    [.always .deathWish, .trueish .deathWishWithBonus "DWEnableBonus"]⟩]),
  ("DLCQuest", [⟨some ("coinsanity", fun value => value.asStr == some "coin"),
    [.range .coinSanity "coinbundlequantity" 5 50 DlcQuest.coinValueToU64]⟩]),
  ("Pokemon Red and Blue", [⟨none, [.trueish .trainerSanity "trainersanity", .trueish .dexSanity "dexsanity"]⟩]),
  ("Pokemon Emerald", [⟨none, [.trueish .trainerSanity "trainersanity", .trueish .dexSanity "dexsanity"]⟩]),
  ("Pokemon Crystal", [⟨none, [.trueish .trainerSanity "trainersanity", .trueish .trainerSanity "kanto_trainersanity",
    .trueish .trainerSanity "johto_trainersanity", .trueish .dexSanity "dexsanity",
    .trueish .dexSanity "dexcountsanity", .flag .grassSanity "grasssanity" PokemonCrystal.grasssanity]⟩]),
  ("Pokemon FireRed and LeafGreen", [⟨none,
    [.trueish .trainerSanity "trainersanity", .trueish .dexSanity "dexsanity"]⟩]),
  ("Pokemon Black and White", [⟨none, [.trueish .dexSanity "dexsanity"]⟩]),
  ("Jak and Daxter: The Precursor Legacy", [
    ⟨some ("enable_orbsanity", fun value => value.asStr == some "global"),
      [.range .orbSanity "global_orbsanity_bundle_size" 10 200 JakAndDaxter.orbValueToU64]⟩,
    ⟨some ("enable_orbsanity", fun value => value.asStr == some "per_level"),
      [.range .orbSanity "level_orbsanity_bundle_size" 10 200 JakAndDaxter.orbValueToU64]⟩]),
  ("TUNIC", [⟨none, [.trueish .grassSanity "grass_randomizer"]⟩]),
  ("Kingdom Hearts", [⟨none,
    [.trueish .deathLink "donald_death_link", .trueish .deathLink "goofy_death_link"]⟩]),
  ("Stardew Valley", [⟨none, [.flag .fishSanity "fishsanity" StardewValley.fishsanity]⟩]),
  ("Super Mario Land 2", [⟨none, [.trueish .coinSanity "coinsanity"]⟩]),
  ("Super Mario World", [⟨none, [.trueish .blockSanity "blocksanity"]⟩]),
  ("Manual_FFXIV_Silasary", [⟨none, [.flag .fishSanity "fishsanity" FFXIV.fishsanityTrueish]⟩])]

section Steps

variable {V : Type} [LinearOrder V] (index : Index V)

/-- The groups of options of a game. -/
def groupsOf (game : String) : List Group :=
  defaultGroup ((index.getWorldByName game).any fun world => world.tags.contains .afterDark) ::
    (groups.lookup game).getD []

/-- The steps for a game with its share. -/
def gameSteps (yaml : Value) (game : String × ℕ) : List Step :=
  match yaml.asMappingGet game.1 with
  | none => [.refuse ("The requested game isn't present in the YAML: " ++ game.1)]
  | some gameYaml => (groupsOf index game.1).flatMap fun group => group.steps game.1 gameYaml game.2

/-- The games that can be rolled, each with its share of the weights. -/
def shares : Tools.YamlGame → List (String × ℕ)
  | .name name => [(name, maxWeight)]
  | .map map => (map.filter fun e => e.2.nonZero).map fun e => (e.1, parts e.2 (sumF64 (map.map Prod.snd)))

/-- All steps of an extraction. -/
def steps (yaml : Value) (game : Tools.YamlGame) : List Step := (shares game).flatMap (gameSteps index yaml)

end Steps

/-- The number of a step is one of the kind. -/
def Step.fits : Step → Prop
  | .refuse _ => True
  | .gate weight => weight ≤ maxWeight
  | .sum n => n < 2 ^ 32
  | .add _ _ chance => chance ≤ maxWeight

def Step.refuses : Step → Bool
  | .refuse _ => true
  | _ => false

instance (step : Step) : Decidable step.fits := by
  cases step <;> rw [Step.fits] <;> infer_instance

/-- The chances that the steps give a game to have a feature. -/
def chances (game : String) (feature : YamlFeature) (steps : List Step) : List ℕ :=
  steps.filterMap fun step =>
    match step with
    | .add g f chance => if g = game ∧ f = feature then some chance else none
    | _ => none

/-- The chance that none of several independent events happens, each step rounded down. -/
def noneOf (chances : List ℕ) : ℕ := chances.foldl (fun n c => n * (maxWeight - c) / maxWeight) maxWeight

/-- The chance that a game has a feature. -/
def anyOf (chances : List ℕ) : ℕ := maxWeight - noneOf chances

/-- Whatever comes before the first step that is refused is a number of its kind. -/
def Sound (steps : List Step) : Prop := ∀ step ∈ steps.takeWhile fun step => !step.refuses, step.fits

instance (steps : List Step) : Decidable (Sound steps) := inferInstanceAs (Decidable (∀ step ∈ _, Step.fits step))

/-! ## Options as they are gone through -/

def Registration.run : Registration → Extraction
  | .always feature => fun extractor => extractor.addFeatureToCurrentGame feature maxWeight
  | .flag feature path isOn => fun extractor => extractor.registerFeatureWithCustomTruth feature path isOn
  | .range feature path min max transform => fun extractor =>
    extractor.registerRangedFeature feature path min max transform

def runRegistrations (registrations : List Registration) : Extraction := fun extractor =>
  registrations.foldlM (fun extractor r => r.run extractor) extractor

def Group.run (group : Group) : Extraction := fun extractor =>
  match group.gate with
  | none => runRegistrations group.registrations extractor
  | some (path, isOn) => do
    let weight ← extractor.getOptionProbability path isOn
    extractor.withWeight weight (runRegistrations group.registrations)

def runGroups (groups : List Group) : Extraction := fun extractor =>
  groups.foldlM (fun extractor group => group.run extractor) extractor

lemma runRegistrations_one (r : Registration) : runRegistrations [r] = r.run := by
  funext extractor
  rw [runRegistrations, List.foldlM_cons]
  exact bind_pure _

lemma runRegistrations_cons (r r' : Registration) (rest : List Registration) :
    runRegistrations (r :: r' :: rest) = fun extractor => r.run extractor >>= runRegistrations (r' :: rest) := rfl

lemma run_open (registrations : List Registration) :
    Group.run ⟨none, registrations⟩ = runRegistrations registrations := rfl

lemma run_gated (path : String) (isOn : Value → Bool) (registrations : List Registration) :
    Group.run ⟨some (path, isOn), registrations⟩ = fun extractor =>
      extractor.getOptionProbability path isOn >>= fun weight =>
        extractor.withWeight weight (runRegistrations registrations) := rfl

lemma runGroups_one (group : Group) : runGroups [group] = group.run := by
  funext extractor
  rw [runGroups, List.foldlM_cons]
  exact bind_pure _

lemma runGroups_cons (group group' : Group) (rest : List Group) :
    runGroups (group :: group' :: rest) = fun extractor => group.run extractor >>= runGroups (group' :: rest) := rfl

/-- Each extractor goes through the groups of its game. -/
lemma extractors_groups : List.Forall₂ (fun e g => e.1 = g.1 ∧ e.2 = runGroups g.2) extractors groups := by
  simp only [extractors, groups, List.forall₂_cons, List.Forall₂.nil, and_true, true_and, runGroups_one, runGroups_cons]
  repeat' apply And.intro
  all_goals
    funext extractor
    simp only [run_open, run_gated, runRegistrations_one, runRegistrations_cons, Registration.trueish, bind_assoc]
    rfl

lemma lookup_forall₂ {A B : Type} {r : A → B → Prop} {l : List (String × A)} {l' : List (String × B)}
    (each : List.Forall₂ (fun a b => a.1 = b.1 ∧ r a.2 b.2) l l') (name : String) :
    (l.lookup name = none ∧ l'.lookup name = none) ∨
      ∃ a b, l.lookup name = some a ∧ l'.lookup name = some b ∧ r a b := by
  induction each with
  | nil => exact .inl ⟨rfl, rfl⟩
  | @cons a b l l' here there ih =>
    obtain ⟨same, related⟩ := here
    rw [List.lookup_cons, List.lookup_cons, same]
    cases name == b.1 with
    | true => exact .inr ⟨a.2, b.2, rfl, rfl, related⟩
    | false => exact ih

/-! ## Steps that are done -/

/-- What a game has of a feature so far. -/
def valueOf (features : YamlGameFeatures) (game : String) (feature : YamlFeature) : ℕ :=
  count ((features.lookup game).getD ∅) feature

/-- No game has more of a feature than all of it. -/
def Bounded (features : YamlGameFeatures) : Prop := ∀ game feature, valueOf features game feature ≤ maxWeight

def setValue (features : YamlGameFeatures) (game : String) (feature : YamlFeature) (value : ℕ) : YamlGameFeatures :=
  features.insert game (((features.lookup game).getD ∅).insert feature value)

/-- A step changes what its game has of its feature, or it ends the extraction. -/
def Step.perform (features : YamlGameFeatures) : Step → Except Stop YamlGameFeatures
  | .refuse e => .error (.error e)
  | .gate weight => if weight ≤ maxWeight then .ok features else .error (.assertion weight)
  | .sum n => if n < 2 ^ 32 then .ok features else .error .overflow
  | .add game feature chance =>
    if chance = 0 then .ok features
    else if chance ≤ maxWeight then
      .ok (setValue features game feature
        (maxWeight - (maxWeight - valueOf features game feature) * (maxWeight - chance) / maxWeight))
    else .error .overflow

def performAll (features : YamlGameFeatures) (steps : List Step) : Except Stop YamlGameFeatures :=
  steps.foldlM Step.perform features

lemma performAll_append (features : YamlGameFeatures) (before after : List Step) :
    performAll features (before ++ after) = performAll features before >>= fun features => performAll features after :=
  List.foldlM_append

lemma valueOf_setValue (features : YamlGameFeatures) (g g' : String) (f f' : YamlFeature) (value : ℕ) :
    valueOf (setValue features g f value) g' f' = if g = g' ∧ f = f' then value else valueOf features g' f' := by
  rw [valueOf, setValue]
  by_cases same : g' = g
  · subst same
    rw [AList.lookup_insert, Option.getD_some]
    by_cases same : f' = f
    · rw [same, Tally.count_insert_self, if_pos ⟨rfl, rfl⟩]
    · rw [Tally.count_insert_ne _ _ same, if_neg fun both => same both.2.symm, valueOf]
  · rw [AList.lookup_insert_ne same, if_neg fun both => same both.1.symm, valueOf]

lemma Bounded.perform {features features' : YamlGameFeatures} (bounded : Bounded features) {step : Step}
    (done : step.perform features = .ok features') : Bounded features' := by
  cases step with
  | refuse e => cases done
  | gate weight =>
    rw [Step.perform] at done
    split at done <;> cases done
    exact bounded
  | sum n =>
    rw [Step.perform] at done
    split at done <;> cases done
    exact bounded
  | add game feature chance =>
    rw [Step.perform] at done
    split at done
    case isTrue =>
      cases done
      exact bounded
    case isFalse =>
      split at done <;> cases done
      intro g f
      rw [valueOf_setValue]
      split
      · exact Nat.sub_le _ _
      · exact bounded g f

lemma Bounded.performAll {features features' : YamlGameFeatures} (bounded : Bounded features) {steps : List Step}
    (done : performAll features steps = .ok features') : Bounded features' := by
  induction steps generalizing features with
  | nil =>
    cases done
    exact bounded
  | cons step rest ih =>
    rw [Features.performAll, List.foldlM_cons] at done
    cases here : step.perform features with
    | error e =>
      rw [here] at done
      cases done
    | ok next =>
      rw [here] at done
      exact ih (bounded.perform here) done

/-! ## An extraction does its steps -/

/-- What is run is done as steps, which depend on the game, its share and the current weight. -/
def Does (run : Extraction) (steps : String → Value → ℕ → ℕ → List Step) : Prop :=
  ∀ extractor game gameYaml share, extractor.currentGame = some (game, gameYaml, share) →
    Bounded extractor.gameFeatures →
    run extractor = (performAll extractor.gameFeatures (steps game gameYaml share extractor.currentWeight)).map
      fun features => { extractor with gameFeatures := features }

/-- What is added to a value that is no more than all is checked only for its own size. -/
lemma checked_value {A : Type} {value : ℕ} (chance : ℕ) (bounded : value ≤ maxWeight) (next : ℕ → Except Stop A) :
    (do
      let notCurrent ← checkedSub maxWeight value
      let notNew ← checkedSub maxWeight chance
      let product ← checkedMul notCurrent notNew
      let newValue ← checkedSub maxWeight (product / maxWeight)
      next newValue) =
    if chance ≤ maxWeight then next (maxWeight - (maxWeight - value) * (maxWeight - chance) / maxWeight)
    else .error .overflow := by
  have small : checkedSub maxWeight value = .ok (maxWeight - value) := if_pos bounded
  rw [small]
  by_cases fits : chance ≤ maxWeight
  · have once : checkedSub maxWeight chance = .ok (maxWeight - chance) := if_pos fits
    have product : (maxWeight - value) * (maxWeight - chance) ≤ maxWeight * maxWeight :=
      Nat.mul_le_mul (Nat.sub_le _ _) (Nat.sub_le _ _)
    have twice : checkedMul (maxWeight - value) (maxWeight - chance) =
        .ok ((maxWeight - value) * (maxWeight - chance)) := if_pos (Nat.lt_of_le_of_lt product (by decide))
    have thrice : checkedSub maxWeight ((maxWeight - value) * (maxWeight - chance) / maxWeight) =
        .ok (maxWeight - (maxWeight - value) * (maxWeight - chance) / maxWeight) :=
      if_pos (Nat.div_le_of_le_mul product)
    rw [once, if_pos fits]
    change (checkedMul (maxWeight - value) (maxWeight - chance) >>= _) = _
    rw [twice]
    change (checkedSub maxWeight _ >>= _) = _
    rw [thrice]
    rfl
  · have underflow : checkedSub maxWeight chance = .error .overflow := if_neg fits
    rw [underflow, if_neg fits]
    rfl

lemma does_add (feature : YamlFeature) (probability : ℕ) :
    Does (fun extractor => extractor.addFeatureToCurrentGame feature probability)
      fun game _ share weight => [.add game feature (Extractor.weighted probability share weight)] := by
  intro extractor game gameYaml share current bounded
  obtain ⟨features, currentGame, weight, yaml⟩ := extractor
  have current : currentGame = some (game, gameYaml, share) := current
  subst current
  change (if Extractor.weighted probability share weight ≠ 0 then _ else _) =
    (performAll features [.add game feature (Extractor.weighted probability share weight)]).map
      fun features => Extractor.mk features (some (game, gameYaml, share)) weight yaml
  generalize Extractor.weighted probability share weight = chance
  rw [performAll, List.foldlM_cons, Step.perform]
  by_cases none_new : chance = 0
  · rw [if_neg (not_not.mpr none_new), if_pos none_new]
    rfl
  · rw [if_pos none_new, if_neg none_new]
    refine (checked_value chance (bounded game feature) _).trans ?_
    by_cases fits : chance ≤ maxWeight
    · rw [if_pos fits, if_pos fits]
      rfl
    · rw [if_neg fits, if_neg fits]
      rfl

lemma Does.bind {run run' : Extraction} {steps steps' : String → Value → ℕ → ℕ → List Step} (first : Does run steps)
    (second : Does run' steps') :
    Does (fun extractor => run extractor >>= run')
      fun game gameYaml share weight => steps game gameYaml share weight ++ steps' game gameYaml share weight := by
  intro extractor game gameYaml share current bounded
  change run extractor >>= run' = _
  rw [performAll_append, first extractor game gameYaml share current bounded]
  cases done : performAll extractor.gameFeatures (steps game gameYaml share extractor.currentWeight) with
  | error e => rfl
  | ok features =>
    have bounded := bounded.performAll done
    exact second { extractor with gameFeatures := features } game gameYaml share current bounded

lemma getOptionProbability_eq {extractor : Extractor} {game : String} {gameYaml : Value} {share : ℕ}
    (current : extractor.currentGame = some (game, gameYaml, share)) (path : String) (isOn : Value → Bool) :
    extractor.getOptionProbability path isOn = .ok (chanceOf gameYaml path isOn) := by
  simp only [Extractor.getOptionProbability, current, chanceOf]
  cases gameYaml.asMappingGet path <;> rfl

lemma sum_outside_le (min max : ℕ) (map : AList fun _ : ℕ => ℕ) :
    (outside min max map).sum ≤ (map.entries.map fun e => e.2).sum :=
  (List.filter_sublist.map _).sum_le_sum fun _ _ => Nat.zero_le _

/-- A registration does its steps. -/
lemma does_registration (r : Registration) :
    Does r.run fun game gameYaml share weight => r.steps game gameYaml share weight := by
  cases r with
  | always feature => exact does_add feature maxWeight
  | flag feature path isOn =>
    intro extractor game gameYaml share current bounded
    change (extractor.getOptionProbability path isOn >>= _) = _
    rw [getOptionProbability_eq current]
    exact does_add feature (chanceOf gameYaml path isOn) extractor game gameYaml share current bounded
  | range feature path min max transform =>
    intro extractor game gameYaml share current bounded
    obtain ⟨features, currentGame, weight, yaml⟩ := extractor
    have current : currentGame = some (game, gameYaml, share) := current
    subst current
    simp only [Registration.run, Extractor.registerRangedFeature, Registration.steps]
    cases gameYaml.asMappingGet path with
    | none => rfl
    | some option =>
      simp only
      cases getOptionMap option transform with
      | error e => rfl
      | ok map =>
        simp only
        change (sumU32 (map.entries.map fun e => e.2) >>= _) = _
        rw [performAll, List.foldlM_cons, Step.perform, sumU32]
        by_cases fits : (map.entries.map fun e => e.2).sum < 2 ^ 32
        · have part : sumU32 (outside min max map) = .ok (outside min max map).sum :=
            if_pos (Nat.lt_of_le_of_lt (sum_outside_le min max map) fits)
          rw [if_pos fits, if_pos fits]
          change (sumU32 (outside min max map) >>= _) = _
          rw [part]
          exact does_add feature _ ⟨features, some (game, gameYaml, share), weight, yaml⟩ game gameYaml share rfl
            bounded
        · rw [if_neg fits, if_neg fits]
          rfl

lemma does_registrations (rs : List Registration) :
    Does (runRegistrations rs) fun game gameYaml share weight =>
      rs.flatMap fun r => r.steps game gameYaml share weight := by
  induction rs with
  | nil =>
    intro extractor game gameYaml share _ _
    rfl
  | cons r rs ih => exact (does_registration r).bind ih

/-- What a group does at full weight. -/
lemma group_run (group : Group) {extractor : Extractor} {game : String} {gameYaml : Value} {share : ℕ}
    (current : extractor.currentGame = some (game, gameYaml, share)) (bounded : Bounded extractor.gameFeatures)
    (full : extractor.currentWeight = maxWeight) :
    group.run extractor = (performAll extractor.gameFeatures (group.steps game gameYaml share)).map
      fun features => { extractor with gameFeatures := features } := by
  rw [Group.run, Group.steps]
  cases group.gate with
  | none =>
    simp only
    rw [does_registrations group.registrations extractor game gameYaml share current bounded, full]
  | some gate =>
    obtain ⟨path, isOn⟩ := gate
    simp only
    rw [getOptionProbability_eq current]
    change extractor.withWeight (chanceOf gameYaml path isOn) _ = _
    rw [Extractor.withWeight, performAll, List.foldlM_cons, Step.perform]
    split
    case isTrue fits =>
      have inner := does_registrations group.registrations
        { extractor with currentWeight := chanceOf gameYaml path isOn } game gameYaml share current bounded
      rw [inner]
      change _ = Except.map _ (performAll extractor.gameFeatures _)
      cases performAll extractor.gameFeatures (group.registrations.flatMap _) with
      | error e => rfl
      | ok features =>
        rw [← full]
        rfl
    case isFalse => rfl

lemma groups_run (gs : List Group) {extractor : Extractor} {game : String} {gameYaml : Value} {share : ℕ}
    (current : extractor.currentGame = some (game, gameYaml, share)) (bounded : Bounded extractor.gameFeatures)
    (full : extractor.currentWeight = maxWeight) :
    runGroups gs extractor =
      (performAll extractor.gameFeatures (gs.flatMap fun group => group.steps game gameYaml share)).map
        fun features => { extractor with gameFeatures := features } := by
  induction gs generalizing extractor with
  | nil => rfl
  | cons group gs ih =>
    rw [runGroups, List.foldlM_cons, List.flatMap_cons, performAll_append, group_run group current bounded full]
    cases done : performAll extractor.gameFeatures (group.steps game gameYaml share) with
    | error e => rfl
    | ok features =>
      have next := @ih { extractor with gameFeatures := features } current (bounded.performAll done) full
      exact next

section Games

variable {V : Type} [LinearOrder V] (index : Index V)

lemma default_run {extractor : Extractor} {game : String} {gameYaml : Value} {share : ℕ}
    (current : extractor.currentGame = some (game, gameYaml, share)) :
    defaultExtractFeatures index extractor =
      (defaultGroup ((index.getWorldByName game).any fun world => world.tags.contains .afterDark)).run extractor := by
  obtain ⟨features, currentGame, weight, yaml⟩ := extractor
  have current : currentGame = some (game, gameYaml, share) := current
  subst current
  simp only [defaultExtractFeatures]
  cases (index.getWorldByName game).any fun world => world.tags.contains .afterDark with
  | true =>
    simp only [defaultGroup, List.map_cons, List.map_nil, List.singleton_append, if_true, run_open,
      runRegistrations_cons, runRegistrations_one]
    rfl
  | false =>
    simp only [defaultGroup, List.map_cons, List.map_nil, List.nil_append, if_false, Bool.false_eq_true, run_open,
      runRegistrations_cons, runRegistrations_one]
    rfl

/-- The turn of a game does its steps. -/
lemma game_run {extractor : Extractor} (bounded : Bounded extractor.gameFeatures)
    (full : extractor.currentWeight = maxWeight) (game : String) (share : ℕ) :
    ∃ currentGame, extractFeaturesFromYaml index extractor game share =
      (performAll extractor.gameFeatures (gameSteps index extractor.yaml (game, share))).map
        fun features => ⟨features, currentGame, maxWeight, extractor.yaml⟩ := by
  rw [extractFeaturesFromYaml, Extractor.setGame, gameSteps]
  cases extractor.yaml.asMappingGet game with
  | none => exact ⟨none, rfl⟩
  | some gameYaml =>
    refine ⟨some (game, gameYaml, share), ?_⟩
    let turn : Extractor := { extractor with currentGame := some (game, gameYaml, share) }
    change (defaultExtractFeatures index turn >>= _) = (performAll turn.gameFeatures
      ((groupsOf index game).flatMap fun group => group.steps game gameYaml share)).map _
    rw [default_run index rfl, @group_run _ turn game gameYaml share rfl bounded full, groupsOf, List.flatMap_cons,
      performAll_append]
    cases done : performAll turn.gameFeatures _ with
    | error e => rfl
    | ok features =>
      have bounded := bounded.performAll done
      dsimp only [Except.map, bind, Except.bind]
      rcases lookup_forall₂ (r := fun run gs => run = runGroups gs) extractors_groups game with
        ⟨missing, noGroups⟩ | ⟨run, gs, found, hasGroups, runs⟩
      · rw [missing, noGroups]
        simp only [Option.getD_none, List.flatMap_nil]
        rw [← full]
        rfl
      · rw [found, hasGroups, runs]
        simp only [Option.getD_some]
        have all := @groups_run gs { turn with gameFeatures := features } game gameYaml share rfl bounded full
        rw [all, ← full]
        rfl

lemma empty_bounded : Bounded ∅ := fun _ _ => Nat.zero_le _

lemma weighted_games_run (total : F64) (map : List (String × F64)) {extractor : Extractor}
    (bounded : Bounded extractor.gameFeatures) (full : extractor.currentWeight = maxWeight) :
    ∃ currentGame, map.foldlM (extractWeightedGame index total) extractor =
      (performAll extractor.gameFeatures (((map.filter fun e => e.2.nonZero).map fun e => (e.1, parts e.2 total)).flatMap
        (gameSteps index extractor.yaml))).map fun features => ⟨features, currentGame, maxWeight, extractor.yaml⟩ := by
  induction map generalizing extractor with
  | nil =>
    refine ⟨extractor.currentGame, ?_⟩
    rw [← full]
    rfl
  | cons e rest ih =>
    rw [List.foldlM_cons, extractWeightedGame, List.filter_cons]
    split
    case isTrue =>
      obtain ⟨current, turn⟩ := game_run index bounded full e.1 (parts e.2 total)
      rw [turn, List.map_cons, List.flatMap_cons, performAll_append]
      cases done : performAll extractor.gameFeatures (gameSteps index extractor.yaml (e.1, parts e.2 total)) with
      | error e => exact ⟨none, rfl⟩
      | ok features =>
        obtain ⟨current', others⟩ :=
          @ih ⟨features, current, maxWeight, extractor.yaml⟩ (bounded.performAll done) rfl
        exact ⟨current', others⟩
    case isFalse => exact ih bounded full

/-- An extraction does its steps and adds up what the games have then. -/
theorem extractFeatures_eq (game : Tools.YamlGame) (entries : List (Value × Value)) (rest : List Value) :
    ∃ currentGame : Option (String × Value × ℕ), extractFeatures index game (.ok (.mapping entries :: rest)) =
      performAll ∅ (steps index (.mapping entries) game) >>= fun features =>
        Extractor.finalize ⟨features, currentGame, maxWeight, .mapping entries⟩ := by
  cases game with
  | name name =>
    obtain ⟨currentGame, turn⟩ :=
      @game_run _ _ index ⟨∅, none, maxWeight, .mapping entries⟩ empty_bounded rfl name maxWeight
    refine ⟨currentGame, ?_⟩
    change extractFeaturesFromYaml index ⟨∅, none, maxWeight, .mapping entries⟩ name maxWeight >>= _ = _
    rw [turn, steps, shares, List.flatMap_singleton]
    cases performAll ∅ (gameSteps index (.mapping entries) (name, maxWeight)) <;> rfl
  | map map =>
    obtain ⟨currentGame, games⟩ := @weighted_games_run _ _ index (sumF64 (map.map Prod.snd)) map
      ⟨∅, none, maxWeight, .mapping entries⟩ empty_bounded rfl
    refine ⟨currentGame, ?_⟩
    change map.foldlM (extractWeightedGame index (sumF64 (map.map Prod.snd)))
      ⟨∅, none, maxWeight, .mapping entries⟩ >>= _ = _
    rw [games, steps, shares]
    cases performAll ∅ _ <;> rfl

end Games

/-! ## How the steps end -/

/-- The extraction panics. -/
def panics : Stop → Bool
  | .error _ => false
  | .overflow | .assertion _ | .noGame => true

lemma sound_cons (step : Step) (rest : List Step) :
    Sound (step :: rest) ↔ step.refuses = true ∨ (step.fits ∧ Sound rest) := by
  rw [Sound, List.takeWhile_cons]
  cases step.refuses with
  | true => simp
  | false =>
    simp only [Bool.not_false, if_true, List.forall_mem_cons, Bool.false_eq_true, false_or]
    rfl

/-- A step refuses, or it is done just if its number is one of its kind. -/
lemma perform_cases (features : YamlGameFeatures) (step : Step) :
    (step.refuses = true ∧ ∃ e, step.perform features = .error (.error e)) ∨
      (step.refuses = false ∧ step.fits ∧ ∃ next, step.perform features = .ok next) ∨
      (step.refuses = false ∧ ¬ step.fits ∧ ∃ stop, step.perform features = .error stop ∧ panics stop = true) := by
  cases step with
  | refuse e => exact .inl ⟨rfl, e, rfl⟩
  | gate weight =>
    right
    by_cases fits : weight ≤ maxWeight
    · exact .inl ⟨rfl, fits, features, if_pos fits⟩
    · exact .inr ⟨rfl, fits, _, if_neg fits, rfl⟩
  | sum n =>
    right
    by_cases fits : n < 2 ^ 32
    · exact .inl ⟨rfl, fits, features, if_pos fits⟩
    · exact .inr ⟨rfl, fits, _, if_neg fits, rfl⟩
  | add game feature chance =>
    right
    rw [Step.perform]
    by_cases none_new : chance = 0
    · refine .inl ⟨rfl, ?_, features, if_pos none_new⟩
      rw [none_new]
      exact Nat.zero_le _
    · rw [if_neg none_new]
      by_cases fits : chance ≤ maxWeight
      · exact .inl ⟨rfl, fits, _, if_pos fits⟩
      · exact .inr ⟨rfl, fits, _, if_neg fits, rfl⟩

/-- Steps are refused, done or end in a panic, and the last is so just if they are not sound. -/
theorem performAll_cases (features : YamlGameFeatures) (steps : List Step) :
    (Sound steps ∧ (∃ step ∈ steps, step.refuses = true) ∧ ∃ e, performAll features steps = .error (.error e)) ∨
      (Sound steps ∧ (∀ step ∈ steps, step.refuses = false) ∧ ∃ done, performAll features steps = .ok done) ∨
      (¬ Sound steps ∧ ∃ stop, performAll features steps = .error stop ∧ panics stop = true) := by
  induction steps generalizing features with
  | nil => exact .inr (.inl ⟨nofun, nofun, features, rfl⟩)
  | cons step rest ih =>
    rw [sound_cons, performAll, List.foldlM_cons]
    rcases perform_cases features step with
      ⟨refuses, e, stops⟩ | ⟨goes, fits, next, performs⟩ | ⟨goes, fails, stop, stops, panic⟩
    · rw [stops]
      exact .inl ⟨.inl refuses, ⟨step, List.mem_cons_self, refuses⟩, e, rfl⟩
    · rw [performs]
      rcases ih next with
        ⟨sound, ⟨other, mem, refuses⟩, e, stops⟩ | ⟨sound, all, done, ends⟩ | ⟨unsound, stop, stops, panic⟩
      · exact .inl ⟨.inr ⟨fits, sound⟩, ⟨other, List.mem_cons_of_mem _ mem, refuses⟩, e, stops⟩
      · exact .inr (.inl ⟨.inr ⟨fits, sound⟩, List.forall_mem_cons.mpr ⟨goes, all⟩, done, ends⟩)
      · refine .inr (.inr ⟨?_, stop, stops, panic⟩)
        rw [goes]
        exact fun h => unsound (h.resolve_left Bool.false_ne_true).2
    · rw [stops]
      refine .inr (.inr ⟨?_, stop, rfl, panic⟩)
      rw [goes]
      exact fun h => fails (h.resolve_left Bool.false_ne_true).1

/-! ## What the games have then -/

lemma chances_cons (game : String) (feature : YamlFeature) (step : Step) (rest : List Step) :
    chances game feature (step :: rest) = chances game feature [step] ++ chances game feature rest := by
  rw [← List.singleton_append, chances, List.filterMap_append]
  rfl

/-- What a game lacks of a feature is what the chances of the steps leave. -/
lemma perform_lacks {features next : YamlGameFeatures} {step : Step}
    (done : step.perform features = .ok next) (game : String) (feature : YamlFeature) :
    maxWeight - valueOf next game feature =
      (chances game feature [step]).foldl (fun n c => n * (maxWeight - c) / maxWeight)
        (maxWeight - valueOf features game feature) := by
  cases step with
  | refuse e => cases done
  | gate weight =>
    rw [Step.perform] at done
    split at done <;> cases done
    rfl
  | sum n =>
    rw [Step.perform] at done
    split at done <;> cases done
    rfl
  | add g f chance =>
    have left : maxWeight - valueOf features g f ≤ maxWeight := Nat.sub_le _ _
    rw [Step.perform] at done
    split at done
    case isTrue none_new =>
      cases done
      rw [chances, List.filterMap_cons]
      by_cases here : g = game ∧ f = feature
      · simp only [if_pos here, List.filterMap_nil, List.foldl_cons, List.foldl_nil, none_new, Nat.sub_zero]
        rw [Nat.mul_div_cancel _ (by decide)]
      · simp only [if_neg here, List.filterMap_nil, List.foldl_nil]
    case isFalse =>
      split at done <;> cases done
      rw [valueOf_setValue, chances, List.filterMap_cons]
      by_cases here : g = game ∧ f = feature
      · obtain ⟨rfl, rfl⟩ := here
        have less : (maxWeight - valueOf features g f) * (maxWeight - chance) / maxWeight ≤ maxWeight :=
          Nat.div_le_of_le_mul (Nat.mul_le_mul left (Nat.sub_le _ _))
        simp only [and_self, if_true, List.filterMap_nil, List.foldl_cons, List.foldl_nil]
        exact Nat.sub_sub_self less
      · simp only [if_neg here, List.filterMap_nil, List.foldl_nil]

lemma performAll_lacks {features done : YamlGameFeatures} {steps : List Step}
    (ends : performAll features steps = .ok done) (game : String) (feature : YamlFeature) :
    maxWeight - valueOf done game feature =
      (chances game feature steps).foldl (fun n c => n * (maxWeight - c) / maxWeight)
        (maxWeight - valueOf features game feature) := by
  induction steps generalizing features with
  | nil =>
    cases ends
    rfl
  | cons step rest ih =>
    rw [performAll, List.foldlM_cons] at ends
    cases here : step.perform features with
    | error e =>
      rw [here] at ends
      cases ends
    | ok next =>
      rw [here] at ends
      rw [ih ends, perform_lacks here, chances_cons game feature step rest, List.foldl_append]

/-- The steps give each game the chance that one of its options is on. -/
theorem performAll_value {steps : List Step} {done : YamlGameFeatures} (ends : performAll ∅ steps = .ok done)
    (game : String) (feature : YamlFeature) : valueOf done game feature = anyOf (chances game feature steps) := by
  have lacks := performAll_lacks ends game feature
  have most : valueOf done game feature ≤ maxWeight := empty_bounded.performAll ends game feature
  rw [anyOf, noneOf]
  change _ = List.foldl _ maxWeight _ at lacks
  rw [← lacks, Nat.sub_sub_self most]

/-- Only games that a step adds to have features. -/
lemma performAll_games {features done : YamlGameFeatures} {steps : List Step} {names : List String}
    (ends : performAll features steps = .ok done) (before : ∀ g ∈ features, g ∈ names)
    (adds : ∀ g f c, Step.add g f c ∈ steps → g ∈ names) : ∀ g ∈ done, g ∈ names := by
  induction steps generalizing features with
  | nil =>
    cases ends
    exact before
  | cons step rest ih =>
    rw [performAll, List.foldlM_cons] at ends
    cases here : step.perform features with
    | error e =>
      rw [here] at ends
      cases ends
    | ok next =>
      rw [here] at ends
      refine ih ends ?_ fun g f c mem => adds g f c (List.mem_cons_of_mem _ mem)
      cases step with
      | refuse e => cases here
      | gate weight =>
        rw [Step.perform] at here
        split at here <;> cases here
        exact before
      | sum n =>
        rw [Step.perform] at here
        split at here <;> cases here
        exact before
      | add game feature chance =>
        rw [Step.perform] at here
        split at here
        case isTrue =>
          cases here
          exact before
        case isFalse =>
          split at here <;> cases here
          intro g mem
          rcases AList.mem_insert _ |>.mp mem with rfl | old
          · exact adds g feature chance List.mem_cons_self
          · exact before g old

lemma registration_adds {game : String} {gameYaml : Value} {share weight : ℕ} {r : Registration} {g : String}
    {f : YamlFeature} {c : ℕ} (mem : Step.add g f c ∈ r.steps game gameYaml share weight) : g = game := by
  cases r with
  | always feature =>
    cases List.mem_singleton.mp mem
    rfl
  | flag feature path isOn =>
    cases List.mem_singleton.mp mem
    rfl
  | range feature path min max transform =>
    rw [Registration.steps] at mem
    split at mem
    case h_1 => cases mem
    case h_2 =>
      split at mem
      case h_1 => cases List.mem_singleton.mp mem
      case h_2 =>
        rcases List.mem_pair.mp mem with same | same
        · cases same
        · cases same
          rfl

lemma group_adds {game : String} {gameYaml : Value} {share : ℕ} {group : Group} {g : String} {f : YamlFeature} {c : ℕ}
    (mem : Step.add g f c ∈ group.steps game gameYaml share) : g = game := by
  rw [Group.steps] at mem
  split at mem
  case h_1 =>
    obtain ⟨r, _, mem⟩ := List.mem_flatMap.mp mem
    exact registration_adds mem
  case h_2 =>
    rcases List.mem_cons.mp mem with same | mem
    · cases same
    · obtain ⟨r, _, mem⟩ := List.mem_flatMap.mp mem
      exact registration_adds mem

section Weights

variable {V : Type} [LinearOrder V] {index : Index V}

lemma steps_add {yaml : Value} {game : Tools.YamlGame} {g : String} {f : YamlFeature} {c : ℕ}
    (mem : Step.add g f c ∈ steps index yaml game) : g ∈ (shares game).map Prod.fst := by
  obtain ⟨share, rolled, mem⟩ := List.mem_flatMap.mp mem
  have same : g = share.1 := by
    rw [gameSteps] at mem
    split at mem
    case h_1 => cases List.mem_singleton.mp mem
    case h_2 =>
      obtain ⟨group, _, mem⟩ := List.mem_flatMap.mp mem
      exact group_adds mem
  rw [same]
  exact List.mem_map_of_mem rolled

lemma shares_nodup {game : Tools.YamlGame} (once : EachOnce game) : ((shares game).map Prod.fst).Nodup := by
  cases game with
  | name name => exact List.nodup_singleton name
  | map map =>
    rw [shares, List.map_map]
    exact List.Nodup.sublist (List.filter_sublist.map _) once

/-- The chance of a feature over all games. -/
def chanceOverall (index : Index V) (yaml : Value) (game : Tools.YamlGame) (feature : YamlFeature) : ℕ :=
  ((shares game).map fun g => anyOf (chances g.1 feature (steps index yaml game))).sum

/-- What comes out has for each feature the sum of the games' chances. -/
lemma finalize_total {yaml : Value} {game : Tools.YamlGame} (once : EachOnce game) {done : YamlGameFeatures}
    (ends : performAll ∅ (steps index yaml game) = .ok done) (feature : YamlFeature) :
    Tally.total (done.entries.flatMap fun g => g.2.entries.map fun e => (e.1, e.2)) feature =
      chanceOverall index yaml game feature := by
  have covers : ∀ g ∈ done, g ∈ (shares game).map Prod.fst :=
    performAll_games ends nofun fun g f c mem => steps_add mem
  rw [Tally.total_flatMap]
  simp only [Tally.total_entries]
  rw [Tally.sum_entries done (φ := fun features => count features feature) (d := ∅) rfl (shares_nodup once) covers,
    List.map_map, chanceOverall]
  congr 1
  apply List.map_congr_left
  intro g _
  exact performAll_value ends g.1 feature

/-- The weights of features are probabilities: the extraction does not panic, and no weight is above all. -/
def Probabilities : Except Stop YamlFeatures → Prop
  | .ok features => ∀ e ∈ features.entries, e.2 ≤ maxWeight
  | .error stop => panics stop = false

/-- The weights keep each chance one of the kind up to what is refused, and if nothing is refused, the games' chances
of each feature add up to no more than all. -/
def KeepsChances (index : Index V) (yaml : Value) (game : Tools.YamlGame) : Prop :=
  Sound (steps index yaml game) ∧
    ((∀ step ∈ steps index yaml game, step.refuses = false) →
      ∀ feature, chanceOverall index yaml game feature ≤ maxWeight)

/-- A document that is no mapping is refused. -/
lemma keepsChances_of_noMapping {yaml : Value} (noMapping : yaml.asMapping = none) (game : Tools.YamlGame) :
    KeepsChances index yaml game := by
  have refused : ∀ g, gameSteps index yaml g = [.refuse ("The requested game isn't present in the YAML: " ++ g.1)] := by
    intro g
    rw [gameSteps, Value.asMappingGet, noMapping]
    rfl
  rw [KeepsChances, steps]
  cases rolled : shares game with
  | nil =>
    refine ⟨fun _ mem => absurd mem List.not_mem_nil, fun _ feature => ?_⟩
    rw [chanceOverall, rolled]
    exact Nat.zero_le _
  | cons g rest =>
    rw [List.flatMap_cons, refused, List.singleton_append]
    refine ⟨(sound_cons _ _).mpr (.inl rfl), fun all => ?_⟩
    cases all _ List.mem_cons_self

/-- Adding up gives weights that are probabilities just if the sums are. -/
lemma probabilities_finalize {yaml : Value} {game : Tools.YamlGame} (once : EachOnce game) {done : YamlGameFeatures}
    (ends : performAll ∅ (steps index yaml game) = .ok done) (currentGame : Option (String × Value × ℕ))
    (weight : ℕ) (doc : Value) :
    Probabilities (Extractor.finalize ⟨done, currentGame, weight, doc⟩) ↔
      ∀ feature, chanceOverall index yaml game feature ≤ maxWeight := by
  have overall := finalize_total once ends
  rw [Extractor.finalize]
  cases sums : Tally.tally (2 ^ 32) Stop.overflow
    (done.entries.flatMap fun g => g.2.entries.map fun e => (e.1, e.2)) (∅ : YamlFeatures) with
  | ok features =>
    have each : ∀ feature, count features feature = chanceOverall index yaml game feature := by
      intro feature
      rw [Tally.tally_ok sums, overall, Tally.count_empty, Nat.zero_add]
    constructor
    · intro most feature
      rw [← each]
      rcases Nat.eq_zero_or_pos (count features feature) with missing | counts
      · rw [missing]
        exact Nat.zero_le _
      · exact most _ (Tally.mem_of_count (Nat.ne_of_gt counts))
    · intro most e mem
      rw [← Tally.count_of_mem mem, each]
      exact most e.1
  | error stop =>
    obtain ⟨rfl, feature, high⟩ := Tally.tally_error sums
    rw [overall, Tally.count_empty, Nat.zero_add] at high
    constructor
    · nofun
    · intro most
      exact absurd (Nat.le_trans high (most feature)) (by decide)

lemma probabilities_mapping {game : Tools.YamlGame} (once : EachOnce game) (entries : List (Value × Value))
    (rest : List Value) :
    Probabilities (extractFeatures index game (.ok (.mapping entries :: rest))) ↔
      KeepsChances index (.mapping entries) game := by
  obtain ⟨currentGame, extracts⟩ := extractFeatures_eq index game entries rest
  rw [extracts, KeepsChances]
  rcases performAll_cases ∅ (steps index (.mapping entries) game) with
    ⟨sound, ⟨step, mem, refuses⟩, e, stops⟩ | ⟨sound, all, done, ends⟩ | ⟨unsound, stop, stops, panic⟩
  · rw [stops]
    refine iff_of_true rfl ⟨sound, fun none => ?_⟩
    rw [none step mem] at refuses
    cases refuses
  · rw [ends]
    change Probabilities (Extractor.finalize _) ↔ _
    rw [probabilities_finalize once ends]
    exact ⟨fun most => ⟨sound, fun _ => most⟩, fun keeps => keeps.2 all⟩
  · rw [stops]
    refine iff_of_false (fun quiet => ?_) fun keeps => unsound keeps.1
    have quiet : panics stop = false := quiet
    rw [panic] at quiet
    cases quiet

/-- The weights of features are probabilities just if the weights in the YAML keep each chance one. -/
theorem probabilities_iff (index : Index V) {game : Tools.YamlGame} (once : EachOnce game)
    (docs : Except String (List Value)) :
    Probabilities (extractFeatures index game docs) ↔
      ∀ yaml rest, docs = .ok (yaml :: rest) → KeepsChances index yaml game := by
  cases docs with
  | error e => exact ⟨nofun, fun _ => rfl⟩
  | ok docs =>
    cases docs with
    | nil => exact ⟨nofun, fun _ => rfl⟩
    | cons yaml rest =>
      have first : (∀ yaml' rest', Except.ok (ε := String) (yaml :: rest) = .ok (yaml' :: rest') →
          KeepsChances index yaml' game) ↔ KeepsChances index yaml game := by
        constructor
        · exact fun all => all yaml rest rfl
        · intro keeps yaml' rest' same
          cases same
          exact keeps
      rw [first]
      cases isMap : yaml.asMapping with
      | none =>
        have refused : extractFeatures index game (.ok (yaml :: rest)) =
            .error (.error "The main body of the YAML should be a map") := by
          change (Extractor.new yaml >>= _) = _
          rw [Extractor.new, isMap]
          rfl
        rw [refused]
        exact iff_of_true rfl (keepsChances_of_noMapping isMap game)
      | some entries =>
        have mapping : yaml = .mapping entries := by
          cases yaml <;> cases isMap
          rfl
        rw [mapping]
        exact probabilities_mapping once entries rest

end Weights

/-! ## Two games -/

/-- An index without worlds. -/
def emptyIndex : Index ℕ := ⟨"", "", 0, "", "", ∅⟩

def twoGames (clique tunic : List (Value × Value)) : Value :=
  .mapping [(.string "Clique", .mapping clique), (.string "TUNIC", .mapping tunic)]

/-- Three times out of four the first game is rolled. -/
def mostlyClique : Tools.YamlGame := .map [("Clique", .finite 3), ("TUNIC", .finite 1)]

def evenOdds : Tools.YamlGame := .map [("Clique", .finite 1), ("TUNIC", .finite 1)]

def deathLinkMaybe : List (Value × Value) :=
  [(.string "death_link", .mapping [(.string "true", .integer 1), (.string "false", .integer 3)]),
    (.string "grass_randomizer", .boolean true)]

/-- A feature that is on for sure in one game and maybe in the other. -/
theorem mostlyClique_probabilities : Probabilities (extractFeatures emptyIndex mostlyClique
    (.ok [twoGames [(.string "death_link", .boolean true)] deathLinkMaybe])) := by
  apply (probabilities_iff emptyIndex (by decide) _).mpr
  intro yaml rest same
  cases same
  refine ⟨by decide +kernel, fun _ feature => ?_⟩
  cases feature <;> decide +kernel

def deathLinkTwice : List (Value × Value) :=
  [(.string "death_link", .boolean true), (.string "deathlink", .boolean true)]

/-- Two options for one feature in each of two games make it likelier than certain. -/
theorem deathLinkTwice_exceeds : ¬ ∀ (V : Type) [LinearOrder V] (index : Index V) (game : Tools.YamlGame)
    (docs : Except String (List Value)), EachOnce game → (∃ shown, Tools.validateGame game = .ok shown) →
    Probabilities (extractFeatures index game docs) := by
  intro claim
  have once : EachOnce evenOdds := by decide
  have fine := claim ℕ emptyIndex evenOdds (.ok [twoGames deathLinkTwice deathLinkTwice]) once ⟨_, rfl⟩
  have keeps : KeepsChances emptyIndex (twoGames deathLinkTwice deathLinkTwice) evenOdds :=
    (probabilities_mapping once _ []).mp fine
  have all : ∀ step ∈ steps emptyIndex (twoGames deathLinkTwice deathLinkTwice) evenOdds, step.refuses = false := by
    decide +kernel
  have certain : maxWeight < chanceOverall emptyIndex (twoGames deathLinkTwice deathLinkTwice) evenOdds .deathLink := by
    decide +kernel
  exact absurd (keeps.2 all .deathLink) (Nat.not_le.mpr certain)

end ArchipelagoXL.Lobby.Features
