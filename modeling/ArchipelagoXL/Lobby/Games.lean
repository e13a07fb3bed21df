import ArchipelagoXL.Apwm.Resolve
import ArchipelagoXL.Lib.Paths
import ArchipelagoXL.Tools.Evaluate

/-!
# The games of a YAML

A YAML names its game or gives weights to several. Which games it can roll is decided in four places of the lobby:
`validate_game` counts those of weight at least 1, `get_apworlds_for_games` resolves and `games_of_yaml` lists those
of a weight that is not 0, and `enqueue_gen_job` requires each one there is. They agree just if no weight is below 1
(`sameGames_iff`).

Weights are doubles, as the numbers that they are; a map of weights has a game once.
-/

namespace ArchipelagoXL.Lobby

open Apwm (Index Manifest World)
open Tools (F64)

/-! ## The four selections -/

/-- The games that `validate_game` counts. -/
def countedGames : Tools.YamlGame → List String
  | .name name => [name]
  | .map map => (map.filter fun e => e.2.atLeastOne).map Prod.fst

/-- What `validate_game` shows for them. -/
def shownGame : List String → Except String String
  | [] => .error "Your YAML contains games but none of them has any chance of getting rolled"
  | [name] => .ok name
  | names => .ok ("Random (" ++ toString names.length ++ ")")

/-- The games that `get_apworlds_for_games` resolves. -/
def resolvedGames : Tools.YamlGame → List String
  | .name name => [name]
  | .map map => (map.filter fun e => e.2.nonZero).map Prod.fst

/-- Rust `games_of_yaml`, of a YAML that can be read. -/
def gamesOfYaml : Tools.YamlGame → List String
  | .name name => [name]
  | .map games => (games.filter fun e => e.2.nonZero).map Prod.fst

/-- The worlds that `enqueue_gen_job` requires for a YAML. -/
def requiredWorlds : Tools.YamlGame → List String
  | .name name => [name]
  | .map names => names.map Prod.fst

section
variable {V : Type} [LinearOrder V]

/-- Rust `get_apworld_from_game_name`; the worlds of an index are files with a stem (`Index.Keyed`). -/
def getApworldFromGameName (index : Index V) (manifest : Manifest V) (gameName : String) : Option (String × V) :=
  match manifest.resolveFromGameName gameName index with
  | .ok (world, version) => some ((Paths.fileStem world.path).getD "", version)
  | .error _ => none

/-- The loop of `get_apworlds_for_games`: the apworlds and the games without one. -/
def resolveGames (index : Index V) (manifest : Manifest V) : List String → List (String × V) × List String
  | [] => ([], [])
  | game :: rest =>
    let (result, errors) := resolveGames index manifest rest
    match getApworldFromGameName index manifest game with
    | some apworld => (apworld :: result, errors)
    | none => (result, game :: errors)

/-- Rust `get_apworlds_for_games`, on the index of the base. -/
def getApworldsForGames (index : Index V) (manifest : Manifest V) (games : Tools.YamlGame) :
    Except (List String) (List (String × V)) :=
  let (result, errors) := resolveGames index manifest (resolvedGames games)
  if errors ≠ [] then .error errors else .ok result

end

/-! ## When they agree -/

/-- A map has each game once. -/
def EachOnce : Tools.YamlGame → Prop
  | .name _ => True
  | .map map => (map.map Prod.fst).Nodup

instance (game : Tools.YamlGame) : Decidable (EachOnce game) :=
  match game with
  | .name _ => isTrue trivial
  | .map map => inferInstanceAs (Decidable (map.map Prod.fst).Nodup)

/-- The four selections have the same games. -/
def SameGames (game : Tools.YamlGame) : Prop :=
  ∀ name, (name ∈ countedGames game ↔ name ∈ resolvedGames game) ∧
    (name ∈ resolvedGames game ↔ name ∈ gamesOfYaml game) ∧ (name ∈ gamesOfYaml game ↔ name ∈ requiredWorlds game)

/-- No weight is below 1, and each is a number. -/
def WeightsAtLeastOne : Tools.YamlGame → Prop
  | .name _ => True
  | .map map => ∀ e ∈ map, e.2.atLeastOne = true

/-- What `validate_game` shows depends on the games it counts. -/
lemma validateGame_eq (game : Tools.YamlGame) : Tools.validateGame game = shownGame (countedGames game) := by
  cases game with
  | name name => rfl
  | map map =>
    rw [Tools.validateGame, countedGames]
    generalize map.filter (fun e => e.2.atLeastOne) = heavy
    cases heavy with
    | nil => rfl
    | cons e rest =>
      cases rest with
      | nil => rfl
      | cons e' rest => simp [shownGame]

/-- In a map with each game once a game has one weight. -/
lemma weight_unique {map : List (String × F64)} (once : EachOnce (.map map)) {e e' : String × F64} (mem : e ∈ map)
    (mem' : e' ∈ map) (same : e.1 = e'.1) : e = e' := List.inj_on_of_nodup_map once mem mem' same

/-- The four selections agree just if no weight is below 1. -/
theorem sameGames_iff (game : Tools.YamlGame) (once : EachOnce game) : SameGames game ↔ WeightsAtLeastOne game := by
  cases game with
  | name name => exact iff_of_true (fun _ => ⟨Iff.rfl, Iff.rfl, Iff.rfl⟩) trivial
  | map map =>
    constructor
    · intro same e mem
      have required : e.1 ∈ requiredWorlds (.map map) := List.mem_map_of_mem mem
      obtain ⟨counts, lists, requires⟩ := same e.1
      obtain ⟨e', there, sameName⟩ := List.mem_map.mp (counts.mpr (lists.mpr (requires.mpr required)))
      obtain ⟨mem', heavy⟩ := List.mem_filter.mp there
      rwa [weight_unique once mem mem' sameName.symm]
    · intro heavy name
      have counted : map.filter (fun e => e.2.atLeastOne) = map := List.filter_eq_self.mpr heavy
      have rolled : map.filter (fun e => e.2.nonZero) = map :=
        List.filter_eq_self.mpr fun e mem => F64.nonZero_of_atLeastOne (heavy e mem)
      rw [countedGames, resolvedGames, gamesOfYaml, requiredWorlds, counted, rolled]
      exact ⟨Iff.rfl, Iff.rfl, Iff.rfl⟩

theorem whole_weights_same : SameGames (.map [("Clique", .finite 1), ("Tunic", .finite 2)]) := by
  apply (sameGames_iff _ (by decide)).mpr
  intro e mem
  rcases List.mem_pair.mp mem with rfl | rfl
  · decide +kernel
  · decide +kernel

/-- A game of weight one half can be rolled, and is resolved, but not counted. -/
theorem half_weight_differs :
    Tools.validateGame (.map [("Clique", .finite 1), ("Tunic", .finite (1 / 2))]) = .ok "Clique" ∧
      ¬ SameGames (.map [("Clique", .finite 1), ("Tunic", .finite (1 / 2))]) := by
  refine ⟨by decide +kernel, fun same => ?_⟩
  have counts := (same "Tunic").1
  exact absurd counts (by decide +kernel)

end ArchipelagoXL.Lobby
