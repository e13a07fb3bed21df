import ArchipelagoXL.Apwm.Resolve

/-!
# Moving a room to another version

Model of `lobby/src/base_switch.rs`: what the move of a room from one Archipelago version to another does to the worlds
its YAMLs can roll. Each game is resolved with the room's manifest against both versions, and where the releases differ
the report tells how.

The report accounts for every game (`switchReport_accounts`), and tells right what is lost. What it calls a pin of the
room may be a default of the target version, though, for a world that is called like its game (`reports_right_iff`).
-/

namespace ArchipelagoXL.Lobby

open Apwm

variable {V : Type} [LinearOrder V]

/-- Rust `ChangeKind`. -/
inductive ChangeKind (V : Type) where
  /-- The target version doesn't have the world. -/
  | lost (before : V)
  /-- The room pins a release that the target version doesn't have. -/
  | pinNotAvailable (pinned after : V)
  /-- Another release, by the room's own rules. -/
  | moved (before after : V)
  /-- Unsupported where the room is, available on the target version. -/
  | gained (after : V)
deriving DecidableEq

/-- Rust `WorldChange`. -/
structure WorldChange (V : Type) where
  game : String
  yamls : ℕ
  kind : ChangeKind V
deriving DecidableEq

/-- Rust `SwitchReport`. -/
structure SwitchReport (V : Type) where
  warnings : List (WorldChange V)
  changes : List (WorldChange V)
  unchanged : ℕ
deriving DecidableEq

/-- How many YAMLs can roll each game. -/
def yamlsPerGame (games : List String) : BTreeMap String ℕ :=
  games.foldl (fun yamls game => yamls.alter game fun entry => some (entry.getD 0 + 1)) ∅

/-- Rust `unavailable_pin`. -/
def unavailablePin (manifest : Manifest V) (index : Index V) (game : String) : Option V :=
  match index.worlds.toList.find? (·.2.name = game) with
  | none => none
  | some (apworldName, world) =>
    match manifest.getVersionReq apworldName index with
    | .specific pinned => if world.versions.contains pinned then none else some pinned
    | _ => none

/-- The release that the manifest resolves a game to. -/
def releaseOn (manifest : Manifest V) (index : Index V) (game : String) : Option V :=
  (manifest.resolveFromGameName game index).toOption.map (·.2)

/-- The kinds that an owner has to read about. -/
def ChangeKind.isWarning : ChangeKind V → Bool
  | lost _ => true
  | pinNotAvailable _ _ => true
  | moved _ _ => false
  | gained _ => false

/-- The end of a turn of `switch_report`. -/
def SwitchReport.push (report : SwitchReport V) (change : WorldChange V) : SwitchReport V :=
  if change.kind.isWarning then { report with warnings := report.warnings ++ [change] }
  else { report with changes := report.changes ++ [change] }

section
variable (manifest : Manifest V) (current target : Index V)

/-- The turn of `switch_report` for a game. -/
def switchTurn (report : SwitchReport V) (game : String) (yamls : ℕ) : SwitchReport V :=
  match releaseOn manifest current game, releaseOn manifest target game with
  | some before, some after =>
    if before = after then { report with unchanged := report.unchanged + 1 }
    else match unavailablePin manifest target game with
      | some pinned => report.push ⟨game, yamls, .pinNotAvailable pinned after⟩
      | none => report.push ⟨game, yamls, .moved before after⟩
  -- unsupported before and after
  | none, none => report
  | some before, none => report.push ⟨game, yamls, .lost before⟩
  | none, some after => report.push ⟨game, yamls, .gained after⟩

/-- Rust `switch_report`. -/
def switchReport (games : List String) : SwitchReport V :=
  (yamlsPerGame games).foldl (switchTurn manifest current target) ⟨[], [], 0⟩

/-- What the move does to a game that it does something to. -/
def changeKind (game : String) : Option (ChangeKind V) :=
  match releaseOn manifest current game, releaseOn manifest target game with
  | some before, some after =>
    if before = after then none
    else match unavailablePin manifest target game with
      | some pinned => some (.pinNotAvailable pinned after)
      | none => some (.moved before after)
  | none, none => none
  | some before, none => some (.lost before)
  | none, some after => some (.gained after)

/-- The game keeps the release it has. -/
def keepsRelease (game : String) : Bool :=
  decide (releaseOn manifest current game = releaseOn manifest target game) &&
    (releaseOn manifest current game).isSome

/-! ## The property -/

/-- Each game is in the report once, with its YAMLs: listed if its release is another one, counted if it is the same,
and left out if it has none on either version. -/
structure Accounts (games : List String) (report : SwitchReport V) : Prop where
  once : ((report.warnings ++ report.changes).map (·.game)).Nodup
  listed : ∀ game, (∃ change ∈ report.warnings ++ report.changes, change.game = game) ↔
    game ∈ games ∧ releaseOn manifest current game ≠ releaseOn manifest target game
  yamls : ∀ change ∈ report.warnings ++ report.changes, change.yamls = games.count change.game
  unchanged : report.unchanged = (games.dedup.filter (keepsRelease manifest current target)).length

/-- A game with a release is lost just if it has none on the target version. -/
def TellsLost (games : List String) (report : SwitchReport V) : Prop :=
  ∀ game ∈ games, ∀ before, releaseOn manifest current game = some before →
    ((∃ change ∈ report.warnings, change.game = game ∧ change.kind = .lost before) ↔
      releaseOn manifest target game = none)

/-- A pin that is not available is one of the room, of a release that the target version lacks, and the release used
there is the one that is told. -/
def TellsPins (report : SwitchReport V) : Prop :=
  ∀ change ∈ report.warnings ++ report.changes, ∀ pinned after, change.kind = .pinNotAvailable pinned after →
    ∃ apworld world, target.FirstOf change.game apworld world ∧
      manifest.worlds[apworld]? = some (.specific pinned) ∧ world.versions[pinned]? = none ∧
        releaseOn manifest target change.game = some after

/-- A world that the room does not pin, but whose default is taken from the world with a game of that name: a release
that the target version lacks. -/
def TakenForPin (game : String) : Prop :=
  ∃ apworld world named pinned, target.FirstOf game apworld world ∧ manifest.worlds[apworld]? = none ∧
    manifest.newApworldPolicy = .enable ∧ target.getWorldByName apworld = some named ∧
      named.defaultVersion = .specific pinned ∧ world.versions[pinned]? = none

end

/-! ## Tallies -/

lemma getElem?_tally (games : List String) (yamls : BTreeMap String ℕ) (game : String) :
    (games.foldl (fun yamls game => yamls.alter game fun entry => some (entry.getD 0 + 1)) yamls)[game]? =
      if game ∈ games then some (yamls[game]?.getD 0 + games.count game) else yamls[game]? := by
  induction games generalizing yamls with
  | nil => simp
  | cons first games ih =>
    rw [List.foldl_cons, ih, Std.ExtTreeMap.getElem?_alter]
    by_cases same : first = game
    · subst same
      by_cases more : first ∈ games
      · simp [more]
        omega
      · simp [more, List.count_eq_zero_of_not_mem more]
    · simp [same, Ne.symm same]

lemma getElem?_yamlsPerGame (games : List String) (game : String) :
    (yamlsPerGame games)[game]? = if game ∈ games then some (games.count game) else none := by
  rw [yamlsPerGame, getElem?_tally]
  simp

lemma mem_yamlsPerGame {games : List String} {entry : String × ℕ} :
    entry ∈ (yamlsPerGame games).toList ↔ entry.1 ∈ games ∧ entry.2 = games.count entry.1 := by
  obtain ⟨game, yamls⟩ := entry
  rw [Std.ExtTreeMap.mem_toList_iff_getElem?_eq_some, getElem?_yamlsPerGame]
  simp [eq_comm]

lemma nodup_yamlsPerGame (games : List String) : ((yamlsPerGame games).toList.map (·.1)).Nodup := by
  rw [List.Nodup, List.pairwise_map]
  exact (BTreeMap.toList_sorted _).imp fun lt => lt.ne

/-- The games of the tally are those that come up. -/
lemma yamlsPerGame_perm (games : List String) : ((yamlsPerGame games).toList.map (·.1)).Perm games.dedup := by
  rw [List.perm_ext_iff_of_nodup (nodup_yamlsPerGame games) (List.nodup_dedup games)]
  intro game
  rw [List.mem_dedup, List.mem_map]
  constructor
  · rintro ⟨entry, mem, rfl⟩
    exact (mem_yamlsPerGame.mp mem).1
  · intro mem
    exact ⟨(game, games.count game), mem_yamlsPerGame.mpr ⟨mem, rfl⟩, rfl⟩

/-! ## The report -/

section
variable {manifest : Manifest V} {current target : Index V}

/-- What a turn adds to one of the two lists. -/
def listedAs (manifest : Manifest V) (current target : Index V) (warning : Bool) (entry : String × ℕ) :
    Option (WorldChange V) :=
  match changeKind manifest current target entry.1 with
  | none => none
  | some kind => if kind.isWarning = warning then some ⟨entry.1, entry.2, kind⟩ else none

lemma listedAs_eq_some {warning : Bool} {entry : String × ℕ} {change : WorldChange V} :
    listedAs manifest current target warning entry = some change ↔
      changeKind manifest current target entry.1 = some change.kind ∧ change.kind.isWarning = warning ∧
        change.game = entry.1 ∧ change.yamls = entry.2 := by
  obtain ⟨game, yamls, kind⟩ := change
  rw [listedAs]
  cases changeKind manifest current target entry.1 with
  | none => simp
  | some kind' =>
    by_cases same : kind' = kind
    · subst same
      by_cases as : kind'.isWarning = warning
      · simp [as, eq_comm]
      · simp [as]
    · by_cases as : kind'.isWarning = warning
      · simp [as, same]
      · simp [as, same]

omit [LinearOrder V] in
lemma push_eq (report : SwitchReport V) (change : WorldChange V) : report.push change =
    ⟨report.warnings ++ if change.kind.isWarning = true then [change] else [],
      report.changes ++ if change.kind.isWarning = false then [change] else [], report.unchanged⟩ := by
  rw [SwitchReport.push]
  cases change.kind.isWarning <;> simp

/-- What a turn adds to the report. -/
lemma switchTurn_eq (report : SwitchReport V) (game : String) (yamls : ℕ) :
    switchTurn manifest current target report game yamls =
      ⟨report.warnings ++ (listedAs manifest current target true (game, yamls)).toList,
        report.changes ++ (listedAs manifest current target false (game, yamls)).toList,
        report.unchanged + (keepsRelease manifest current target game).toNat⟩ := by
  rw [switchTurn, listedAs, listedAs, changeKind, keepsRelease]
  cases releaseOn manifest current game with
  | none =>
    cases releaseOn manifest target game with
    | none => simp
    | some after => simp [push_eq, ChangeKind.isWarning]
  | some before =>
    cases releaseOn manifest target game with
    | none => simp [push_eq, ChangeKind.isWarning]
    | some after =>
      by_cases same : before = after
      · simp [same]
      · cases unavailablePin manifest target game with
        | none => simp [push_eq, ChangeKind.isWarning, same]
        | some pinned => simp [push_eq, ChangeKind.isWarning, same]

lemma foldl_switchTurn (report : SwitchReport V) (entries : List (String × ℕ)) :
    entries.foldl (fun report entry => switchTurn manifest current target report entry.1 entry.2) report =
      ⟨report.warnings ++ entries.filterMap (listedAs manifest current target true),
        report.changes ++ entries.filterMap (listedAs manifest current target false),
        report.unchanged + entries.countP (keepsRelease manifest current target ·.1)⟩ := by
  induction entries generalizing report with
  | nil => simp
  | cons entry entries ih =>
    have listed (warning : Bool) : (entry :: entries).filterMap (listedAs manifest current target warning) =
        (listedAs manifest current target warning entry).toList ++
          entries.filterMap (listedAs manifest current target warning) := by
      cases adds : listedAs manifest current target warning entry <;> simp [adds]
    have counted : (entry :: entries).countP (keepsRelease manifest current target ·.1) =
        (keepsRelease manifest current target entry.1).toNat +
          entries.countP (keepsRelease manifest current target ·.1) := by
      rw [List.countP_cons, Nat.add_comm]
      cases keepsRelease manifest current target entry.1 <;> rfl
    rw [List.foldl_cons, ih, switchTurn_eq, listed, listed, counted]
    simp only [List.append_assoc, Nat.add_assoc]

/-- The report as a whole. -/
lemma switchReport_eq (manifest : Manifest V) (current target : Index V) (games : List String) :
    switchReport manifest current target games =
      ⟨(yamlsPerGame games).toList.filterMap (listedAs manifest current target true),
        (yamlsPerGame games).toList.filterMap (listedAs manifest current target false),
        (yamlsPerGame games).toList.countP (keepsRelease manifest current target ·.1)⟩ := by
  rw [switchReport, Std.ExtTreeMap.foldl_eq_foldl_toList, foldl_switchTurn]
  simp

/-- What is listed: the change of a game that comes up, with how often it does. -/
lemma mem_filterMap_iff {warning : Bool} {games : List String} {change : WorldChange V} :
    change ∈ (yamlsPerGame games).toList.filterMap (listedAs manifest current target warning) ↔
      change.game ∈ games ∧ change.yamls = games.count change.game ∧
        changeKind manifest current target change.game = some change.kind ∧ change.kind.isWarning = warning := by
  rw [List.mem_filterMap]
  constructor
  · rintro ⟨entry, mem, adds⟩
    obtain ⟨kind, as, game, yamls⟩ := listedAs_eq_some.mp adds
    obtain ⟨known, count⟩ := mem_yamlsPerGame.mp mem
    rw [game, yamls]
    exact ⟨known, count, kind, as⟩
  · rintro ⟨known, count, kind, as⟩
    exact ⟨(change.game, change.yamls), mem_yamlsPerGame.mpr ⟨known, count⟩,
      listedAs_eq_some.mpr ⟨kind, as, rfl, rfl⟩⟩

lemma mem_warnings_iff {games : List String} {change : WorldChange V} :
    change ∈ (switchReport manifest current target games).warnings ↔
      change.game ∈ games ∧ change.yamls = games.count change.game ∧
        changeKind manifest current target change.game = some change.kind ∧ change.kind.isWarning = true := by
  rw [switchReport_eq]
  exact mem_filterMap_iff

lemma mem_report_iff {games : List String} {change : WorldChange V} :
    change ∈ (switchReport manifest current target games).warnings ++
        (switchReport manifest current target games).changes ↔
      change.game ∈ games ∧ change.yamls = games.count change.game ∧
        changeKind manifest current target change.game = some change.kind := by
  rw [switchReport_eq, List.mem_append, mem_filterMap_iff, mem_filterMap_iff]
  cases change.kind.isWarning <;> simp

/-- Each list has the games in the order of the tally. -/
lemma map_game_sublist (warning : Bool) (entries : List (String × ℕ)) :
    ((entries.filterMap (listedAs manifest current target warning)).map (·.game)).Sublist (entries.map (·.1)) := by
  induction entries with
  | nil => exact List.Sublist.refl _
  | cons entry entries ih =>
    rw [List.map_cons]
    cases adds : listedAs manifest current target warning entry with
    | none =>
      rw [List.filterMap_cons_none adds]
      exact ih.cons _
    | some change =>
      rw [List.filterMap_cons_some adds, List.map_cons, (listedAs_eq_some.mp adds).2.2.1]
      exact ih.cons_cons _

lemma changeKind_eq_none_iff {game : String} : changeKind manifest current target game = none ↔
    releaseOn manifest current game = releaseOn manifest target game := by
  rw [changeKind]
  cases releaseOn manifest current game with
  | none => cases releaseOn manifest target game <;> simp
  | some before =>
    cases releaseOn manifest target game with
    | none => simp
    | some after =>
      by_cases same : before = after
      · simp [same]
      · cases unavailablePin manifest target game <;> simp [same]

/-- The report accounts for every game. -/
theorem switchReport_accounts (manifest : Manifest V) (current target : Index V) (games : List String) :
    Accounts manifest current target games (switchReport manifest current target games) := by
  refine ⟨?_, ?_, ?_, ?_⟩
  · rw [switchReport_eq, List.map_append]
    apply List.Nodup.append
    · exact (nodup_yamlsPerGame games).sublist (map_game_sublist true _)
    · exact (nodup_yamlsPerGame games).sublist (map_game_sublist false _)
    · -- a game has one kind of change, which is a warning or is none
      intro game warned changed
      obtain ⟨warning, mem, rfl⟩ := List.mem_map.mp warned
      obtain ⟨change, mem', same⟩ := List.mem_map.mp changed
      obtain ⟨_, _, kind, as⟩ := mem_filterMap_iff.mp mem
      obtain ⟨_, _, kind', as'⟩ := mem_filterMap_iff.mp mem'
      rw [same, kind] at kind'
      rw [← Option.some.inj kind', as] at as'
      cases as'
  · intro game
    rw [Ne, ← changeKind_eq_none_iff]
    constructor
    · rintro ⟨change, mem, rfl⟩
      obtain ⟨known, _, kind⟩ := mem_report_iff.mp mem
      rw [kind]
      exact ⟨known, Option.some_ne_none _⟩
    · rintro ⟨known, changes⟩
      obtain ⟨kind, is⟩ := Option.ne_none_iff_exists'.mp changes
      exact ⟨⟨game, games.count game, kind⟩, mem_report_iff.mpr ⟨known, rfl, is⟩, rfl⟩
  · intro change mem
    exact (mem_report_iff.mp mem).2.1
  · rw [switchReport_eq, ← ((yamlsPerGame_perm games).filter _).length_eq, List.filter_map, List.length_map,
      List.countP_eq_length_filter]
    rfl

lemma changeKind_eq_lost_iff {game : String} {before : V} :
    changeKind manifest current target game = some (.lost before) ↔
      releaseOn manifest current game = some before ∧ releaseOn manifest target game = none := by
  rw [changeKind]
  cases releaseOn manifest current game with
  | none => cases releaseOn manifest target game <;> simp
  | some before' =>
    cases releaseOn manifest target game with
    | none => simp
    | some after =>
      by_cases same : before' = after
      · simp [same]
      · cases unavailablePin manifest target game <;> simp [same]

/-- The report tells right what is lost. -/
theorem switchReport_tellsLost (manifest : Manifest V) (current target : Index V) (games : List String) :
    TellsLost manifest current target games (switchReport manifest current target games) := by
  intro game known before resolved
  constructor
  · rintro ⟨change, mem, rfl, kind⟩
    obtain ⟨_, _, is, _⟩ := mem_warnings_iff.mp mem
    rw [kind] at is
    exact (changeKind_eq_lost_iff.mp is).2
  · intro nothing
    refine ⟨⟨game, games.count game, .lost before⟩, ?_, rfl, rfl⟩
    exact mem_warnings_iff.mpr ⟨known, rfl, changeKind_eq_lost_iff.mpr ⟨resolved, nothing⟩, rfl⟩

/-! ## Pins -/

lemma unavailablePin_eq_some_iff {index : Index V} {game : String} {pinned : V} :
    unavailablePin manifest index game = some pinned ↔ ∃ apworld world, index.FirstOf game apworld world ∧
      manifest.getVersionReq apworld index = .specific pinned ∧ world.versions[pinned]? = none := by
  rw [unavailablePin]
  cases found : index.worlds.toList.find? (·.2.name = game) with
  | none =>
    constructor
    · exact fun none => by cases none
    · rintro ⟨apworld, world, first, _⟩
      rw [Index.find?_eq_some_iff.mpr first] at found
      cases found
  | some entry =>
    obtain ⟨apworld, world⟩ := entry
    have first := Index.find?_eq_some_iff.mp found
    have only : (∃ apworld world, index.FirstOf game apworld world ∧
        manifest.getVersionReq apworld index = .specific pinned ∧ world.versions[pinned]? = none) ↔
        manifest.getVersionReq apworld index = .specific pinned ∧ world.versions[pinned]? = none := by
      constructor
      · rintro ⟨apworld', world', first', req, lacks⟩
        obtain ⟨rfl, rfl⟩ := first.unique first'
        exact ⟨req, lacks⟩
      · rintro ⟨req, lacks⟩
        exact ⟨apworld, world, first, req, lacks⟩
    rw [only]
    dsimp only
    generalize manifest.getVersionReq apworld index = req
    cases req with
    | specific version =>
      have lacks : world.versions.contains version = false ↔ world.versions[version]? = none := by
        rw [Std.ExtTreeMap.contains_eq_isSome_getElem?, Option.isSome_eq_false_iff, Option.isNone_iff_eq_none]
      dsimp only
      cases has : world.versions.contains version with
      | true =>
        rw [if_pos rfl]
        constructor
        · exact fun none => by cases none
        · rintro ⟨same, absent⟩
          rw [← VersionReq.specific.inj same, ← lacks, has] at absent
          cases absent
      | false =>
        rw [if_neg Bool.false_ne_true]
        constructor
        · intro same
          rw [← Option.some.inj same]
          exact ⟨rfl, lacks.mp has⟩
        · rintro ⟨same, _⟩
          rw [VersionReq.specific.inj same]
    | disabled => simp
    | latest => simp
    | latestSupported => simp

/-- A requirement on one release is the room's own, or a default. -/
lemma getVersionReq_eq_specific_iff {index : Index V} {apworld : String} {pinned : V} :
    manifest.getVersionReq apworld index = .specific pinned ↔ manifest.worlds[apworld]? = some (.specific pinned) ∨
      manifest.worlds[apworld]? = none ∧ manifest.newApworldPolicy = .enable ∧
        ∃ named, index.getWorldByName apworld = some named ∧ named.defaultVersion = .specific pinned := by
  rw [Manifest.getVersionReq]
  cases manifest.worlds[apworld]? with
  | some req => simp
  | none =>
    cases manifest.newApworldPolicy with
    | disable => simp
    | enable =>
      cases index.getWorldByName apworld with
      | none => simp [default]
      | some named => simp

lemma changeKind_eq_pin_iff {game : String} {pinned after : V} :
    changeKind manifest current target game = some (.pinNotAvailable pinned after) ↔
      (∃ before, releaseOn manifest current game = some before ∧ before ≠ after) ∧
        releaseOn manifest target game = some after ∧ unavailablePin manifest target game = some pinned := by
  rw [changeKind]
  cases releaseOn manifest current game with
  | none => cases releaseOn manifest target game <;> simp
  | some before =>
    cases releaseOn manifest target game with
    | none => simp
    | some after' =>
      by_cases same : before = after'
      · subst same
        simp
        tauto
      · cases unavailablePin manifest target game with
        | none => simp [same]
        | some pinned' =>
          simp [same]
          constructor
          · rintro ⟨rfl, rfl⟩
            exact ⟨same, rfl, rfl⟩
          · rintro ⟨_, rfl, rfl⟩
            exact ⟨rfl, rfl⟩

/-- What the report calls a pin is one of the room exactly if no game that moves has a default taken for it. -/
lemma tellsPins_iff (games : List String) :
    TellsPins manifest target (switchReport manifest current target games) ↔
      ∀ game ∈ games, (∃ before after, releaseOn manifest current game = some before ∧
        releaseOn manifest target game = some after ∧ before ≠ after) → ¬ TakenForPin manifest target game := by
  constructor
  · rintro tells game known ⟨before, after, resolved, resolved', moves⟩
      ⟨apworld, world, named, pinned, first, noEntry, enabled, isNamed, default, lacks⟩
    have pin : unavailablePin manifest target game = some pinned := by
      rw [unavailablePin_eq_some_iff]
      refine ⟨apworld, world, first, ?_, lacks⟩
      exact getVersionReq_eq_specific_iff.mpr (.inr ⟨noEntry, enabled, named, isNamed, default⟩)
    have kind : changeKind manifest current target game = some (.pinNotAvailable pinned after) :=
      changeKind_eq_pin_iff.mpr ⟨⟨before, resolved, moves⟩, resolved', pin⟩
    obtain ⟨apworld', _, first', entry, _⟩ :=
      tells ⟨game, games.count game, _⟩ (mem_report_iff.mpr ⟨known, rfl, kind⟩) pinned after rfl
    rw [← (first.unique first').1, noEntry] at entry
    cases entry
  · intro noDefault change mem pinned after kind
    obtain ⟨known, _, is⟩ := mem_report_iff.mp mem
    rw [kind] at is
    obtain ⟨⟨before, resolved, moves⟩, resolved', pin⟩ := changeKind_eq_pin_iff.mp is
    obtain ⟨apworld, world, first, req, lacks⟩ := unavailablePin_eq_some_iff.mp pin
    refine ⟨apworld, world, first, ?_, lacks, resolved'⟩
    rcases getVersionReq_eq_specific_iff.mp req with entry | ⟨noEntry, enabled, named, isNamed, default⟩
    · exact entry
    · exact absurd ⟨apworld, world, named, pinned, first, noEntry, enabled, isNamed, default, lacks⟩
        (noDefault change.game known ⟨before, after, resolved, resolved', moves⟩)

/-- The report accounts for every game, tells right what is lost, and calls a pin only what the room pins, exactly if
no game that moves to another release has a default that is taken for a pin. -/
theorem reports_right_iff (manifest : Manifest V) (current target : Index V) (games : List String) :
    (Accounts manifest current target games (switchReport manifest current target games) ∧
        TellsLost manifest current target games (switchReport manifest current target games) ∧
        TellsPins manifest target (switchReport manifest current target games)) ↔
      ∀ game ∈ games, (∃ before after, releaseOn manifest current game = some before ∧
        releaseOn manifest target game = some after ∧ before ≠ after) → ¬ TakenForPin manifest target game := by
  rw [← tellsPins_iff]
  constructor
  · exact fun right => right.2.2
  · exact fun pins => ⟨switchReport_accounts _ _ _ _, switchReport_tellsLost _ _ _ _, pins⟩

end

/-- A world that is called like its game, with a release for the one version, one for the other, and the former as its
default. -/
def movedRelease : WorldDef PlainVersion :=
  let releases : List (PlainVersion × Release PlainVersion) :=
    [(plain 1 1 0, ⟨some (plain 0 6 8), none, none, none⟩), (plain 2 0 0, ⟨none, some (plain 0 6 7), none, none⟩)]
  { plainWorld "Clique" [] with
    defaultVersion := .specific (plain 2 0 0)
    releases := Std.ExtTreeMap.ofList releases }

/-- A room that pins nothing is told that its pin is not available. -/
theorem default_taken_for_pin : ∃ current target,
    (plainSource [("Clique", movedRelease)]).viewForBase (plain 0 6 7) = .ok current ∧
      (plainSource [("Clique", movedRelease)]).viewForBase (plain 0 6 8) = .ok target ∧
      switchReport Manifest.new current target ["Clique"] =
        ⟨[⟨"Clique", 1, .pinNotAvailable (plain 2 0 0) (plain 1 1 0)⟩], [], 0⟩ ∧
      ¬ TellsPins Manifest.new target (switchReport Manifest.new current target ["Clique"]) := by
  have run : ((plainSource [("Clique", movedRelease)]).viewForBase (plain 0 6 7)).toOption.any (fun current =>
      ((plainSource [("Clique", movedRelease)]).viewForBase (plain 0 6 8)).toOption.any fun target =>
        switchReport Manifest.new current target ["Clique"] =
          ⟨[⟨"Clique", 1, .pinNotAvailable (plain 2 0 0) (plain 1 1 0)⟩], [], 0⟩) = true := by
    decide +kernel
  obtain ⟨current, isCurrent, run⟩ := exists_ok_of_any run
  obtain ⟨target, isTarget, report⟩ := exists_ok_of_any run
  have report := of_decide_eq_true report
  refine ⟨current, target, isCurrent, isTarget, report, ?_⟩
  rw [report]
  intro tells
  obtain ⟨apworld, _, _, entry, _⟩ := tells _ List.mem_cons_self (plain 2 0 0) (plain 1 1 0) rfl
  have empty : (Manifest.new : Manifest PlainVersion).worlds[apworld]? = none := Std.ExtTreeMap.getElem?_empty
  rw [empty] at entry
  cases entry

end ArchipelagoXL.Lobby
