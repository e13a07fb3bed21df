import ArchipelagoXL.Lobby.Games
import ArchipelagoXL.Lobby.Versions

/-!
# YAMLs that are validated again

When the index or a manifest changes, `revalidate_yamls_if_necessary` queues the YAMLs whose apworlds may have
changed. It looks at the apworlds a YAML was validated with, and for an unsupported one at whether there are
worlds of new games; the games of the YAML are not looked up again.

So a YAML that is passed over keeps the right apworlds just if its games still lead to the apworlds that are stored
(`skipped_validated_iff`), and stays unsupported whatever comes just if it has a game that no resolved world had
(`skipped_unsupported_iff`).
-/

namespace ArchipelagoXL.Lobby

open Apwm (Index Manifest World)

section
variable {V : Type} [LinearOrder V]

/-- What a manifest resolves an index to. -/
abbrev ResolvedIndex (V : Type) [LinearOrder V] := BTreeMap String (World V × V)

/-- The names of the games of what is resolved. -/
def gameNames (resolvedIndex : ResolvedIndex V) : List String := resolvedIndex.toList.map fun e => e.2.1.name

/-- `new_worlds_available` in `revalidate_yamls_if_necessary`. -/
def newWorldsAvailable (oldResolvedIndex resolvedIndex : ResolvedIndex V) : Bool :=
  (gameNames resolvedIndex).any fun name => !(gameNames oldResolvedIndex).contains name

/-- The versions that `should_revalidate_yaml` compares. -/
def resolvedVersions (resolvedIndex : ResolvedIndex V) : List (String × V) :=
  resolvedIndex.toList.map fun e => (e.1, e.2.2)

/-- The apworlds of an index have the stems of their files for names. -/
def Keyed (index : Index V) : Prop :=
  ∀ (name : String) (world : World V), index.worlds[name]? = some world → Paths.fileStem world.path = some name

/-- The games are resolved to what is stored, or not at all for a YAML that is unsupported. -/
def StillRight (yaml : Yaml V) (game : Tools.YamlGame) (index : Index V) (manifest : Manifest V) : Prop :=
  (∃ apworlds, getApworldsForGames index manifest game = .ok apworlds ∧
    ∀ apworld, apworld ∈ apworlds ↔ apworld ∈ yaml.apworlds) ∨
  yaml.validationStatus = .unsupported ∧ ∃ errors, getApworldsForGames index manifest game = .error errors

/-- A YAML that is passed over needs no other apworlds. -/
def SkipsSafely (yaml : Yaml V) (game : Tools.YamlGame) (oldResolvedIndex : ResolvedIndex V) (index : Index V)
    (manifest : Manifest V) : Prop :=
  shouldRevalidateYaml yaml (resolvedVersions (manifest.resolveWith index).1)
      (newWorldsAvailable oldResolvedIndex (manifest.resolveWith index).1) = false →
    StillRight yaml game index manifest

/-- The YAML was validated with the apworlds of its games. -/
structure ValidatedFor (yaml : Yaml V) (game : Tools.YamlGame) (index : Index V) (manifest : Manifest V) : Prop where
  supported : yaml.validationStatus ≠ .unsupported
  stored : getApworldsForGames index manifest game = .ok yaml.apworlds

/-- The YAML has a game without an apworld. -/
structure UnsupportedFor (yaml : Yaml V) (game : Tools.YamlGame) (index : Index V) (manifest : Manifest V) :
    Prop where
  unsupported : yaml.validationStatus = .unsupported
  stored : yaml.apworlds = []
  missing : ∃ errors, getApworldsForGames index manifest game = .error errors

/-- The games of the YAML have worlds in the index, and the first ones are those that are stored. -/
def LeadToStored (yaml : Yaml V) (game : Tools.YamlGame) (index : Index V) : Prop :=
  (∀ name ∈ resolvedGames game, ∃ apworld world, index.FirstOf name apworld world ∧
    apworld ∈ yaml.apworlds.map Prod.fst) ∧
  ∀ apworld ∈ yaml.apworlds.map Prod.fst, ∃ name ∈ resolvedGames game, ∃ world, index.FirstOf name apworld world

instance (index : Index V) : Decidable (Keyed index) :=
  decidable_of_iff (∀ e ∈ index.worlds.toList, Paths.fileStem e.2.path = some e.1) <| by
    simp only [Keyed, Prod.forall, Std.ExtTreeMap.mem_toList_iff_getElem?_eq_some]

/-- What an index is read from keeps the names of its apworlds. -/
lemma Keyed.viewForBase [ToString V] {source : Apwm.IndexSource V} {base : V} {index : Index V}
    (files : ∀ (name : String) (worldDef : Apwm.WorldDef V), source.worldDefs[name]? = some worldDef →
      Paths.fileStem worldDef.path = some name)
    (view : source.viewForBase base = .ok index) : Keyed index := by
  intro name world there
  obtain ⟨seen, absent⟩ := Apwm.IndexSource.worldsFor_eq_ok.mp (Apwm.IndexSource.viewForBase_eq_ok.mp view).1
  cases found : source.worldDefs[name]? with
  | none =>
    rw [absent name found] at there
    cases there
  | some worldDef =>
    obtain ⟨o, _, sees⟩ := Apwm.WorldDef.forBase_eq_ok.mp (seen name worldDef found)
    rw [there, Apwm.WorldDef.seenWith] at sees
    dsimp only at sees
    split at sees
    · cases sees
    · split at sees
      · cases sees
      · cases sees
        exact files name worldDef found

/-! ## What is looked up -/

/-- The version of an apworld is the one it is resolved to. -/
lemma lookup_resolvedVersions (resolvedIndex : ResolvedIndex V) (apworld : String) :
    (resolvedVersions resolvedIndex).lookup apworld = resolvedIndex[apworld]?.map (·.2) :=
  BTreeMap.lookup_toList_map resolvedIndex apworld (·.2)

/-- What is passed over has apworlds that are resolved to the versions that are stored. -/
lemma not_shouldRevalidate_iff {yaml : Yaml V} (supported : yaml.validationStatus ≠ .unsupported)
    {resolvedIndex : ResolvedIndex V} {available : Bool} :
    shouldRevalidateYaml yaml (resolvedVersions resolvedIndex) available = false ↔
      yaml.apworlds ≠ [] ∧ ∀ e ∈ yaml.apworlds, ∃ world, resolvedIndex[e.1]? = some (world, e.2) := by
  rw [shouldRevalidateYaml, if_neg supported]
  cases stored : yaml.apworlds with
  | nil => simp
  | cons first rest =>
    rw [List.isEmpty_cons, if_neg Bool.false_ne_true, List.any_eq_false]
    have resolved : ∀ e : String × V, (¬ decide ((resolvedVersions resolvedIndex).lookup e.1 ≠ some e.2) = true) ↔
        ∃ world, resolvedIndex[e.1]? = some (world, e.2) := by
      intro e
      rw [decide_eq_true_iff, not_not, lookup_resolvedVersions, Option.map_eq_some_iff]
      constructor
      · rintro ⟨⟨world, version⟩, found, rfl⟩
        exact ⟨world, found⟩
      · rintro ⟨world, found⟩
        exact ⟨_, found, rfl⟩
    simp only [resolved, ne_eq, reduceCtorEq, not_false_eq_true, true_and]

lemma getApworldFromGameName_eq_some {index : Index V} (keyed : Keyed index) {manifest : Manifest V} {name : String}
    {apworld : String × V} :
    getApworldFromGameName index manifest name = some apworld ↔
      ∃ world, index.FirstOf name apworld.1 world ∧
        (manifest.resolveWith index).1[apworld.1]? = some (world, apworld.2) := by
  obtain ⟨apworldName, version⟩ := apworld
  rw [getApworldFromGameName]
  constructor
  · intro found
    cases resolved : manifest.resolveFromGameName name index with
    | error e =>
      rw [resolved] at found
      cases found
    | ok r =>
      rw [resolved] at found
      obtain ⟨first, world, isFirst, version_eq⟩ := Manifest.resolveFromGameName_eq_ok.mp resolved
      obtain rfl : r.1 = world := Manifest.resolveWorldVersion_fst version_eq
      simp only [keyed first _ isFirst.1, Option.getD_some, Option.some.injEq, Prod.mk.injEq] at found
      obtain ⟨rfl, rfl⟩ := found
      exact ⟨r.1, isFirst, Manifest.resolveWith_eq_some.mpr ⟨isFirst.1, version_eq⟩⟩
  · rintro ⟨world, isFirst, resolved⟩
    obtain ⟨_, version_eq⟩ := Manifest.resolveWith_eq_some.mp resolved
    have byGame : manifest.resolveFromGameName name index = .ok (world, version) :=
      Manifest.resolveFromGameName_eq_ok.mpr ⟨apworldName, world, isFirst, version_eq⟩
    simp only [byGame, keyed apworldName world isFirst.1, Option.getD_some]

/-- All games are resolved, or there is one that isn't. -/
lemma resolveGames_eq (index : Index V) (manifest : Manifest V) (games : List String) :
    resolveGames index manifest games = (games.filterMap (getApworldFromGameName index manifest),
      games.filter fun game => (getApworldFromGameName index manifest game).isNone) := by
  induction games with
  | nil => rfl
  | cons game rest ih =>
    rw [resolveGames, ih]
    cases found : getApworldFromGameName index manifest game with
    | none => simp [found]
    | some apworld => simp [found]

lemma getApworldsForGames_eq_error {index : Index V} {manifest : Manifest V} {game : Tools.YamlGame} :
    (∃ errors, getApworldsForGames index manifest game = .error errors) ↔
      ∃ name ∈ resolvedGames game, getApworldFromGameName index manifest name = none := by
  rw [getApworldsForGames, resolveGames_eq]
  dsimp only
  split
  case isTrue missing =>
    refine iff_of_true ⟨_, rfl⟩ ?_
    obtain ⟨name, mem⟩ := List.exists_mem_of_ne_nil _ missing
    obtain ⟨there, isNone⟩ := List.mem_filter.mp mem
    exact ⟨name, there, Option.isNone_iff_eq_none.mp isNone⟩
  case isFalse all =>
    refine iff_of_false (fun fails => ?_) ?_
    · obtain ⟨_, fails⟩ := fails
      cases fails
    · rintro ⟨name, there, isNone⟩
      exact all (List.ne_nil_of_mem (List.mem_filter.mpr ⟨there, Option.isNone_iff_eq_none.mpr isNone⟩))

lemma getApworldsForGames_eq_ok {index : Index V} {manifest : Manifest V} {game : Tools.YamlGame}
    {apworlds : List (String × V)} :
    getApworldsForGames index manifest game = .ok apworlds ↔
      (∀ name ∈ resolvedGames game, ∃ apworld, getApworldFromGameName index manifest name = some apworld) ∧
        apworlds = (resolvedGames game).filterMap (getApworldFromGameName index manifest) := by
  rw [getApworldsForGames, resolveGames_eq]
  dsimp only
  split
  case isTrue missing =>
    obtain ⟨name, mem⟩ := List.exists_mem_of_ne_nil _ missing
    obtain ⟨there, isNone⟩ := List.mem_filter.mp mem
    refine iff_of_false (fun found => by cases found) ?_
    rintro ⟨all, _⟩
    obtain ⟨apworld, found⟩ := all name there
    rw [found] at isNone
    cases isNone
  case isFalse noneMissing =>
    have all : ∀ name ∈ resolvedGames game, ∃ apworld, getApworldFromGameName index manifest name = some apworld := by
      intro name there
      by_contra missing
      refine noneMissing (List.ne_nil_of_mem (List.mem_filter.mpr ⟨there, ?_⟩))
      exact Option.isNone_iff_eq_none.mpr (Option.eq_none_iff_forall_ne_some.mpr fun a found => missing ⟨a, found⟩)
    rw [Except.ok.injEq, and_iff_right all, eq_comm]

/-- A YAML that is passed over keeps the right apworlds just if its games lead to those that are stored. -/
lemma skipped_validated_iff {yaml : Yaml V} {game : Tools.YamlGame} (supported : yaml.validationStatus ≠ .unsupported)
    (oldResolvedIndex : ResolvedIndex V) {index : Index V} (keyed : Keyed index) (manifest : Manifest V) :
    SkipsSafely yaml game oldResolvedIndex index manifest ↔
      shouldRevalidateYaml yaml (resolvedVersions (manifest.resolveWith index).1)
          (newWorldsAvailable oldResolvedIndex (manifest.resolveWith index).1) = true ∨
        LeadToStored yaml game index := by
  rw [SkipsSafely]
  cases skipped : shouldRevalidateYaml yaml (resolvedVersions (manifest.resolveWith index).1)
    (newWorldsAvailable oldResolvedIndex (manifest.resolveWith index).1) with
  | true => simp
  | false =>
    obtain ⟨_, resolved⟩ := (not_shouldRevalidate_iff supported).mp skipped
    simp only [forall_const, Bool.false_eq_true, false_or]
    constructor
    · rintro (⟨apworlds, found, same⟩ | ⟨unsupported, _⟩)
      · obtain ⟨all, rfl⟩ := getApworldsForGames_eq_ok.mp found
        constructor
        · intro name mem
          obtain ⟨apworld, finds⟩ := all name mem
          have stored := (same apworld).mp (List.mem_filterMap.mpr ⟨name, mem, finds⟩)
          obtain ⟨world, isFirst, _⟩ := (getApworldFromGameName_eq_some keyed).mp finds
          exact ⟨apworld.1, world, isFirst, List.mem_map_of_mem stored⟩
        · intro apworldName mem
          obtain ⟨apworld, stored, rfl⟩ := List.mem_map.mp mem
          obtain ⟨name, there, finds⟩ := List.mem_filterMap.mp ((same apworld).mpr stored)
          obtain ⟨world, isFirst, _⟩ := (getApworldFromGameName_eq_some keyed).mp finds
          exact ⟨name, there, world, isFirst⟩
      · exact absurd unsupported supported
    · rintro ⟨lead, reached⟩
      -- a game leads to an apworld that is stored with the version it is resolved to
      have finds : ∀ (name apworldName : String) (world : World V) (version : V),
          index.FirstOf name apworldName world → (apworldName, version) ∈ yaml.apworlds →
          getApworldFromGameName index manifest name = some (apworldName, version) := by
        intro name apworldName world version isFirst stored
        obtain ⟨world', resolvedTo⟩ := resolved _ stored
        have sameWorld := (Manifest.resolveWith_eq_some.mp resolvedTo).1
        rw [isFirst.1, Option.some.injEq] at sameWorld
        subst sameWorld
        exact (getApworldFromGameName_eq_some keyed).mpr ⟨world, isFirst, resolvedTo⟩
      left
      refine ⟨_, getApworldsForGames_eq_ok.mpr ⟨?_, rfl⟩, ?_⟩
      · intro name mem
        obtain ⟨apworldName, world, isFirst, stored⟩ := lead name mem
        obtain ⟨⟨_, version⟩, isStored, rfl⟩ := List.mem_map.mp stored
        exact ⟨_, finds name _ world version isFirst isStored⟩
      · intro apworld
        obtain ⟨apworldName, version⟩ := apworld
        rw [List.mem_filterMap]
        constructor
        · rintro ⟨name, mem, found⟩
          obtain ⟨apworldName', world, isFirst, stored⟩ := lead name mem
          obtain ⟨⟨_, version'⟩, isStored, rfl⟩ := List.mem_map.mp stored
          rw [finds name _ world version' isFirst isStored, Option.some.injEq] at found
          rwa [← found]
        · intro stored
          obtain ⟨name, mem, world, isFirst⟩ := reached apworldName (List.mem_map_of_mem stored)
          exact ⟨name, mem, finds name _ world version isFirst stored⟩

/-! ## Worlds that are new -/

/-- Every resolved world is of a game that was there. -/
lemma newWorldsAvailable_eq_false {oldResolvedIndex resolvedIndex : ResolvedIndex V} :
    newWorldsAvailable oldResolvedIndex resolvedIndex = false ↔
      ∀ name ∈ gameNames resolvedIndex, name ∈ gameNames oldResolvedIndex := by
  rw [newWorldsAvailable, List.any_eq_false]
  simp

lemma mem_gameNames {resolvedIndex : ResolvedIndex V} {name : String} :
    name ∈ gameNames resolvedIndex ↔
      ∃ (apworld : String) (r : World V × V), resolvedIndex[apworld]? = some r ∧ r.1.name = name := by
  simp only [gameNames, List.mem_map, Prod.exists, Std.ExtTreeMap.mem_toList_iff_getElem?_eq_some]

/-- The version that a world is resolved to is one of its own. -/
lemma exists_origin {world : World V} {req : Apwm.VersionReq V} {r : World V × V}
    (resolved : Manifest.resolveWorldVersion world req = .ok r) : ∃ origin, world.getVersion r.2 = some origin := by
  have ofPinned : ∀ {v v' : V} {origin : Apwm.WorldOrigin}, world.pinned v = some (v', origin) →
      world.getVersion v' = some origin := by
    intro v v' origin pinned
    obtain ⟨_, found, same⟩ := Option.map_eq_some_iff.mp pinned
    cases same
    exact found
  have ofLatest : ∀ {v : V} {origin : Apwm.WorldOrigin}, world.getLatestRelease = some (v, origin) →
      world.getVersion v = some origin := fun latest => (BTreeMap.maxByKey_toList_eq_some.mp latest).1
  have ofSupported : ∀ {v : V} {origin : Apwm.WorldOrigin}, world.getLatestSupportedRelease = some (v, origin) →
      world.getVersion v = some origin := fun latest => (BTreeMap.find?_toList_eq_some.mp latest).1
  cases req with
  | disabled => cases resolved
  | latestSupported =>
    obtain ⟨_, origin, release⟩ := Apwm.World.found_eq_ok.mp resolved
    exact ⟨origin, ofSupported release⟩
  | specific version =>
    obtain ⟨_, origin, release⟩ := Apwm.World.found_eq_ok.mp resolved
    cases pinned : world.pinned version with
    | none =>
      rw [pinned] at release
      exact ⟨origin, ofLatest release⟩
    | some _ =>
      rw [pinned] at release
      exact ⟨origin, ofPinned (pinned.trans release)⟩
  | latest =>
    obtain ⟨_, origin, release⟩ := Apwm.World.found_eq_ok.mp resolved
    rw [Apwm.World.defaultRelease] at release
    split at release
    · exact ⟨origin, ofLatest release⟩
    · exact ⟨origin, ofSupported release⟩
    · exact ⟨origin, ofPinned release⟩
    · cases release

/-- An index of nothing but what is resolved. -/
def resolvedOnly (index : Index V) (resolvedIndex : ResolvedIndex V) : Index V :=
  { index with worlds := resolvedIndex.map fun _ r => r.1 }

/-- A manifest of what it is resolved to. -/
def pinnedTo (resolvedIndex : ResolvedIndex V) : Manifest V :=
  ⟨resolvedIndex.map fun _ r => .specific r.2, .disable⟩

/-- What is resolved resolves to itself. -/
lemma resolveWith_resolvedOnly (index : Index V) (manifest : Manifest V) :
    ((pinnedTo (manifest.resolveWith index).1).resolveWith (resolvedOnly index (manifest.resolveWith index).1)).1 =
      (manifest.resolveWith index).1 := by
  apply Std.ExtTreeMap.ext_getElem?
  intro apworld
  rw [Manifest.resolveWith_fst, resolvedOnly]
  dsimp only
  rw [Std.ExtTreeMap.getElem?_map]
  cases found : (manifest.resolveWith index).1[apworld]? with
  | none => rfl
  | some r =>
    obtain ⟨world, version⟩ := r
    obtain ⟨origin, release⟩ := exists_origin (Manifest.resolveWith_eq_some.mp found).2
    have req : (pinnedTo (manifest.resolveWith index).1).getVersionReq apworld
        (resolvedOnly index (manifest.resolveWith index).1) = .specific version := by
      rw [Manifest.getVersionReq, pinnedTo]
      dsimp only
      rw [Std.ExtTreeMap.getElem?_map, found]
      rfl
    rw [resolvedOnly] at req
    simp only [Option.map_some, Option.bind_some, Manifest.resolved, req, Manifest.resolveWorldVersion,
      Apwm.World.pinned, release]
    rfl

/-- An unsupported YAML stays so whatever comes just if it has a game that no resolved world had. -/
lemma skipped_unsupported_iff {yaml : Yaml V} {game : Tools.YamlGame} {oldIndex : Index V} (keyedOld : Keyed oldIndex)
    {oldManifest : Manifest V} (unsupported : UnsupportedFor yaml game oldIndex oldManifest) :
    (∀ index, Keyed index → ∀ manifest,
        SkipsSafely yaml game (oldManifest.resolveWith oldIndex).1 index manifest) ↔
      ∃ name ∈ resolvedGames game, name ∉ gameNames (oldManifest.resolveWith oldIndex).1 := by
  have decides : ∀ (resolvedIndex : ResolvedIndex V) available,
      shouldRevalidateYaml yaml (resolvedVersions resolvedIndex) available = available := by
    intro resolvedIndex available
    rw [shouldRevalidateYaml, unsupported.stored, if_pos List.isEmpty_nil, if_pos unsupported.unsupported]
  constructor
  · intro safe
    by_contra all
    push Not at all
    have keyed : Keyed (resolvedOnly oldIndex (oldManifest.resolveWith oldIndex).1) := by
      intro apworld world there
      rw [resolvedOnly, Std.ExtTreeMap.getElem?_map] at there
      obtain ⟨r, resolved, rfl⟩ := Option.map_eq_some_iff.mp there
      exact keyedOld apworld r.1 (Manifest.resolveWith_eq_some.mp resolved).1
    have same := resolveWith_resolvedOnly oldIndex oldManifest
    have found : ∀ name ∈ resolvedGames game, ∃ apworld, getApworldFromGameName
        (resolvedOnly oldIndex (oldManifest.resolveWith oldIndex).1) (pinnedTo (oldManifest.resolveWith oldIndex).1)
        name = some apworld := by
      intro name mem
      obtain ⟨apworld, r, resolved, rfl⟩ := mem_gameNames.mp (all name mem)
      have there : (resolvedOnly oldIndex (oldManifest.resolveWith oldIndex).1).worlds[apworld]? = some r.1 := by
        rw [resolvedOnly, Std.ExtTreeMap.getElem?_map, resolved]
        rfl
      obtain ⟨first, firstWorld, isFirst, _⟩ := Index.exists_firstOf there
      have isResolved := isFirst.1
      rw [resolvedOnly, Std.ExtTreeMap.getElem?_map] at isResolved
      obtain ⟨⟨_, version⟩, resolved, rfl⟩ := Option.map_eq_some_iff.mp isResolved
      exact ⟨(first, version), (getApworldFromGameName_eq_some keyed).mpr ⟨_, isFirst, same.symm ▸ resolved⟩⟩
    have passedOver : newWorldsAvailable (oldManifest.resolveWith oldIndex).1
        ((pinnedTo (oldManifest.resolveWith oldIndex).1).resolveWith
          (resolvedOnly oldIndex (oldManifest.resolveWith oldIndex).1)).1 = false := by
      rw [same]
      exact newWorldsAvailable_eq_false.mpr fun _ mem => mem
    obtain ⟨missing, hasGame, _⟩ := getApworldsForGames_eq_error.mp unsupported.missing
    rcases safe _ keyed _ ((decides _ _).trans passedOver) with ⟨apworlds, resolves, noneStored⟩ | ⟨_, fails⟩
    · obtain ⟨apworld, finds⟩ := found missing hasGame
      have mem : apworld ∈ apworlds := by
        rw [(getApworldsForGames_eq_ok.mp resolves).2]
        exact List.mem_filterMap.mpr ⟨missing, hasGame, finds⟩
      have stored := (noneStored apworld).mp mem
      rw [unsupported.stored] at stored
      cases stored
    · obtain ⟨name, hasGame, isNone⟩ := getApworldsForGames_eq_error.mp fails
      obtain ⟨apworld, finds⟩ := found name hasGame
      rw [finds] at isNone
      cases isNone
  · rintro ⟨name, hasGame, unknown⟩ index keyed manifest passedOver
    rw [decides, newWorldsAvailable_eq_false] at passedOver
    right
    refine ⟨unsupported.unsupported, getApworldsForGames_eq_error.mpr ⟨name, hasGame, ?_⟩⟩
    apply Option.eq_none_iff_forall_ne_some.mpr
    intro apworld found
    obtain ⟨world, isFirst, resolved⟩ := (getApworldFromGameName_eq_some keyed).mp found
    exact unknown (passedOver name (mem_gameNames.mpr ⟨_, _, resolved, isFirst.2.1⟩))

/-- When a YAML that is passed over keeps the right apworlds, and when it stays unsupported. -/
theorem skips_safely_iff (yaml : Yaml V) (game : Tools.YamlGame) :
    (∀ index₀ manifest₀, ValidatedFor yaml game index₀ manifest₀ →
      ∀ oldResolvedIndex index, Keyed index → ∀ manifest,
        (SkipsSafely yaml game oldResolvedIndex index manifest ↔
          shouldRevalidateYaml yaml (resolvedVersions (manifest.resolveWith index).1)
              (newWorldsAvailable oldResolvedIndex (manifest.resolveWith index).1) = true ∨
            LeadToStored yaml game index)) ∧
    ∀ oldIndex, Keyed oldIndex → ∀ oldManifest, UnsupportedFor yaml game oldIndex oldManifest →
      ((∀ index, Keyed index → ∀ manifest,
          SkipsSafely yaml game (oldManifest.resolveWith oldIndex).1 index manifest) ↔
        ∃ name ∈ resolvedGames game, name ∉ gameNames (oldManifest.resolveWith oldIndex).1) := by
  constructor
  · intro index₀ manifest₀ validated oldResolvedIndex index keyed manifest
    exact skipped_validated_iff validated.supported oldResolvedIndex keyed manifest
  · intro oldIndex keyedOld oldManifest unsupported
    exact skipped_unsupported_iff keyedOld unsupported

end

/-- A world of one game, in version 1.0.0. -/
def worldOf (apworld game : String) : World Apwm.PlainVersion where
  path := "index/" ++ apworld ++ ".toml"
  name := game
  displayName := game
  defaultUrl := none
  defaultVersion := .latest
  home := none
  versions := Std.ExtTreeMap.ofList [(Apwm.plain 1 0 0, Apwm.WorldOrigin.default)]
  disabled := false
  supported := false
  tags := []

/-- An index of apworlds with their games. -/
def indexOf (apworlds : List (String × String)) : Index Apwm.PlainVersion where
  path := "index.toml"
  archipelagoRepo := ""
  archipelagoVersion := Apwm.plain 0 6 7
  indexHomepage := ""
  indexDir := "index"
  worlds := Std.ExtTreeMap.ofList (apworlds.map fun e => (e.1, worldOf e.1 e.2))

/-- A YAML with its status and its apworlds. -/
def yamlWith (status : YamlValidationStatus) (apworlds : List (String × Apwm.PlainVersion)) : Yaml Apwm.PlainVersion :=
  ⟨"", none, "Clique", "Bob", status, apworlds, 0, none, none⟩

/-- A world comes before the one of the same game that the YAML was validated with. -/
theorem taken_game_skipped :
    ∃ index₀ index : Index Apwm.PlainVersion, Keyed index₀ ∧ Keyed index ∧
      ValidatedFor (yamlWith .validated [("clique", Apwm.plain 1 0 0)]) (.name "Clique") index₀ Manifest.new ∧
      ¬ SkipsSafely (yamlWith .validated [("clique", Apwm.plain 1 0 0)]) (.name "Clique")
        (Manifest.new.resolveWith index₀).1 index Manifest.new := by
  refine ⟨indexOf [("clique", "Clique")], indexOf [("archery", "Clique"), ("clique", "Clique")], by decide +kernel,
    by decide +kernel, ⟨by decide, by decide +kernel⟩, ?_⟩
  intro safe
  have finds : getApworldsForGames (indexOf [("archery", "Clique"), ("clique", "Clique")]) Manifest.new
      (.name "Clique") = .ok [("archery", Apwm.plain 1 0 0)] := by decide +kernel
  rcases safe (by decide +kernel) with ⟨apworlds, found, same⟩ | ⟨unsupported, _⟩
  · cases finds.symm.trans found
    have stored := (same ("archery", Apwm.plain 1 0 0)).mp List.mem_cons_self
    exact absurd stored (by decide)
  · cases unsupported

theorem other_game_skipped :
    SkipsSafely (yamlWith .validated [("clique", Apwm.plain 1 0 0)]) (.name "Clique") ∅
        (indexOf [("archery", "Archery"), ("clique", "Clique")]) Manifest.new ∧
      SkipsSafely (yamlWith .unsupported []) (.name "Clique")
        (Manifest.new.resolveWith (indexOf [("archery", "Archery")])).1
        (indexOf [("archery", "Archery"), ("bows", "Archery")]) Manifest.new := by
  constructor
  · have keyed : Keyed (indexOf [("archery", "Archery"), ("clique", "Clique")]) := by decide +kernel
    have finds : getApworldFromGameName (indexOf [("archery", "Archery"), ("clique", "Clique")]) Manifest.new "Clique" =
        some ("clique", Apwm.plain 1 0 0) := by decide +kernel
    obtain ⟨world, isFirst, _⟩ := (getApworldFromGameName_eq_some keyed).mp finds
    have validated : ValidatedFor (yamlWith .validated [("clique", Apwm.plain 1 0 0)]) (.name "Clique")
        (indexOf [("clique", "Clique")]) Manifest.new := ⟨by decide, by decide +kernel⟩
    refine ((skips_safely_iff _ _).1 _ _ validated ∅ _ keyed Manifest.new).mpr (.inr ⟨?_, ?_⟩)
    · intro name mem
      obtain rfl := List.mem_singleton.mp mem
      exact ⟨"clique", world, isFirst, List.mem_singleton.mpr rfl⟩
    · intro apworld mem
      obtain rfl := List.mem_singleton.mp mem
      exact ⟨"Clique", List.mem_singleton.mpr rfl, world, isFirst⟩
  · have unsupported : UnsupportedFor (yamlWith .unsupported []) (.name "Clique") (indexOf [("archery", "Archery")])
        Manifest.new := ⟨rfl, rfl, ["Clique"], by decide +kernel⟩
    refine ((skips_safely_iff _ _).2 _ (by decide +kernel) _ unsupported).mpr ?_ _ (by decide +kernel) _
    exact ⟨"Clique", List.mem_singleton.mpr rfl, by decide +kernel⟩

end ArchipelagoXL.Lobby
