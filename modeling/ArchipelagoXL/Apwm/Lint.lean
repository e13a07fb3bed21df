import ArchipelagoXL.Apwm.Views

/-!
# Linting an index

`lint` looks at the index files once more, as tables next to the decoded world files. Most of its
checks are there for lobbies from before multi-base support, which read `archipelago_version`, the
top-level keys of a world and `[versions]`, and nothing else: `WorldDef.olderView` is what they get.
A clean lint makes the view of the legacy base that same view unless a `[base]` table applies to the
legacy base and changes something there (`lint_protects_iff`).
-/

namespace ArchipelagoXL.Apwm

/-- A TOML value (Rust `toml::Value`). -/
inductive Toml where
  | text (value : String)
  | integer (value : ℤ)
  | float (value : String)
  | boolean (value : Bool)
  | datetime (value : String)
  | array (values : List Toml)
  | table (entries : List (String × Toml))

/-- The entries of a table in the order of their keys (Rust `toml::Table`). -/
abbrev TomlTable := List (String × Toml)

/-- Rust `Value::as_table`. -/
def Toml.asTable : Toml → Option TomlTable
  | .table entries => some entries
  | _ => none

/-- Rust `Table::get` followed by `as_table`. -/
def subtable (raw : TomlTable) (key : String) : Option TomlTable :=
  (raw.find? (·.1 = key)).bind (·.2.asTable)

/-- Rust `lint::Severity`. -/
inductive Severity where
  | error
  | warning
deriving DecidableEq

/-- Rust `lint::Problem`. -/
structure Problem where
  severity : Severity
  file : String
  message : String
deriving DecidableEq

/-- Rust `INDEX_KEYS`. -/
def indexKeys : List String :=
  ["archipelago_repo", "archipelago_version", "index_homepage", "index_dir", "bases"]

/-- Rust `WORLD_KEYS`. -/
def worldKeys : List String :=
  ["name", "display_name", "default_url", "default_version", "home", "versions", "releases",
    "disabled", "supported", "tags", "base"]

/-- Rust `VERSION_KEYS`. -/
def versionKeys : List String := ["url", "local"]

/-- Rust `RELEASE_KEYS`. -/
def releaseKeys : List String := ["min_ap_version", "max_ap_version", "url", "local"]

/-- Rust `BASE_OVERRIDE_KEYS`. -/
def baseOverrideKeys : List String := ["supported", "disabled", "default_version"]

/-- Rust `Report::unknown_keys`. -/
def unknownKeys (file : String) (table : TomlTable) (known : List String) (location : String) :
    List Problem :=
  (table.filter fun p => !known.contains p.1).map fun p =>
    ⟨.error, file, s!"`{p.1}` isn't a known key {location}, it would be ignored"⟩

/-- Rust `lint_versions_table`. -/
def lintVersionsTable (file : String) (raw : TomlTable) : List Problem :=
  ((subtable raw "versions").getD []).flatMap fun p =>
    let version := p.1
    match p.2.asTable with
    | none =>
      [⟨.warning, file, s!"{version} in `[versions]` should be a table, like `\x7b\x7d`"⟩]
    | some entry =>
      if entry.length > 1 then
        [⟨.error, file, s!"{version} in `[versions]` has {entry.length} keys. Older lobbies silently drop the `url` or `local` of an entry with more than one, constraints go in `[releases]`"⟩]
      else (entry.filter fun q => !versionKeys.contains q.1).map fun q =>
        ⟨.error, file, s!"`{q.1}` on {version} in `[versions]` is ignored there. Constraints go in `[releases]`"⟩

variable {V : Type} [LinearOrder V] [ToString V]

/-- The checks of Rust `lint_releases_table` on one release. -/
def lintRelease (file : String) (worldDef : WorldDef V) (legacyBase : V) (version : V)
    (release : Release V) : List Problem :=
  let inVersions := worldDef.versions.contains version
  let constrained := release.minApVersion.isSome || release.maxApVersion.isSome
  let hasOrigin := release.url.isSome || release.localFile.isSome
  (match release.minApVersion, release.maxApVersion with
    | some min, some max =>
      if min > max then
        [⟨.error, file, s!"{version} in `[releases]` can't run anywhere: its minimum {min} is above its maximum {max}"⟩]
      else []
    | _, _ => []) ++
  (if inVersions && !constrained && !hasOrigin then
    [⟨.warning, file, s!"{version} in `[releases]` changes nothing, it's already in `[versions]`"⟩]
  else []) ++
  -- a world that is disabled at the top level is hidden from older lobbies on purpose
  (if !inVersions && !worldDef.disabled && release.runsOn legacyBase then
    [⟨.warning, file, s!"{version} can run on {legacyBase} but is only in `[releases]`, so older lobbies won't offer it. Add it to `[versions]` too"⟩]
  else [])

/-- Rust `lint_releases_table`. -/
def lintReleasesTable (file : String) (raw : TomlTable) (worldDef : WorldDef V) (legacyBase : V) :
    List Problem :=
  (((subtable raw "releases").getD []).flatMap fun p =>
    match p.2.asTable with
    | some entry => unknownKeys file entry releaseKeys s!"of {p.1} in `[releases]`"
    | none => []) ++
  worldDef.releases.toList.flatMap fun p => lintRelease file worldDef legacyBase p.1 p.2

/-- Rust `lint_base_tables`. -/
def lintBaseTables (file : String) (raw : TomlTable) (worldDef : WorldDef V) (set : IndexSet V) :
    List Problem :=
  (((subtable raw "base").getD []).flatMap fun p =>
    match p.2.asTable with
    | some entry => unknownKeys file entry baseOverrideKeys s!"of `[base.\"{p.1}\"]`"
    | none => []) ++
  (worldDef.baseOverrides.filter fun p => !set.bases.keys.any p.1.matchesVersion).map fun p =>
    ⟨.warning, file, s!"`[base.\"{p.1.text}\"]` doesn't match any base the index declares"⟩

/-- The check of the default version on one base (the last loop of Rust `lint_world`). -/
def lintDefaultVersion (file : String) (apworldName : String) (base : V) (index : Index V) :
    List Problem :=
  match index.worlds[apworldName]? with
  | none => []
  | some world =>
    match world.defaultVersion with
    | .specific version =>
      if !world.versions.contains version then
        [⟨.error, file, s!"the default version {version} isn't available on Archipelago {base}"⟩]
      else []
    | .latestSupported =>
      if !world.supported then
        [⟨.error, file, s!"the default version is `latest_supported` but the world isn't supported on Archipelago {base}"⟩]
      else []
    | _ => []

/-- A path below `root`, written from there (Rust `strip_prefix`, or the whole path). -/
def relativeTo (root path : String) : String :=
  if path.startsWith (root ++ "/") then (path.drop (root.length + 1)).toString else path

/-- The checks on one world, its file read again as a table (Rust `lint_world`). -/
def lintWorld (apworldName : String) (worldDef : WorldDef V) (root : String) (raw : TomlTable)
    (set : IndexSet V) : List Problem :=
  let file := relativeTo root worldDef.path
  let legacyBase := set.legacyBase
  unknownKeys file raw worldKeys "of a world" ++
  lintVersionsTable file raw ++
  lintReleasesTable file raw worldDef legacyBase ++
  lintBaseTables file raw worldDef set ++
  ((worldDef.versions.keys.filter fun version =>
      worldDef.releases[version]?.any fun release => !release.runsOn legacyBase).map fun version =>
    ⟨.error, file, s!"{version} is in `[versions]`, so older lobbies offer it, but `[releases]` says it can't run on {legacyBase}. Keep it in `[releases]` only"⟩) ++
  (if worldDef.versions.isEmpty && !worldDef.supported && !worldDef.disabled then
    [⟨.error, file, "this world has nothing in `[versions]` and isn't `supported`, older lobbies fail on a world without a release. Set `disabled = true` at the top level and enable it in a `[base.\"...\"]` table"⟩]
  else []) ++
  set.bases.toList.flatMap fun p => lintDefaultVersion file apworldName p.1 p.2

/-- Rust `lint_index_file`. -/
def lintIndexFile (root : String) (raw : TomlTable) (set : IndexSet V) : List Problem :=
  let file := relativeTo root set.path
  let legacyBase := toString set.legacyBase
  unknownKeys file raw indexKeys "of the index" ++
  match subtable raw "bases" with
  | none => []
  | some bases =>
    if !bases.isEmpty && !(bases.map (·.1)).contains legacyBase then
      [⟨.warning, file, s!"`[bases]` doesn't list {legacyBase}. It's a base anyway, since it's the `archipelago_version`"⟩]
    else []

/-- The problems of an index that parses, `files` giving the table of each file (Rust `lint`). -/
def lint (root : String) (files : String → TomlTable) (set : IndexSet V) : List Problem :=
  lintIndexFile root (files set.path) set ++
  set.worldDefs.toList.flatMap fun p => lintWorld p.1 p.2 root (files p.2.path) set

/-! ### What older lobbies see -/

/-- What is compared of a world: whether it is a core world, its default version and its versions. -/
def World.summary (world : World V) : Bool × VersionReq V × List V :=
  (world.supported, world.defaultVersion, world.versions.keys)

/-- The world on the legacy base from its top-level keys and `[versions]` alone. -/
def WorldDef.olderView (self : WorldDef V) (legacyBase : V) :
    Option (Bool × VersionReq V × List V) :=
  if self.disabled then none
  else
    let versions := if self.supported then self.versions.insert legacyBase .supported
      else self.versions
    some (self.supported, self.defaultVersion, versions.keys)

/-- A `[base]` table that applies to the legacy base and changes nothing there: it leaves a disabled
world disabled or without a release, or says again what the top level says. -/
def WorldDef.Harmless (self : WorldDef V) (legacyBase : V) (o : BaseOverride V) : Prop :=
  if self.disabled then
    o.disabled ≠ some false ∨
      o.supported.getD self.supported = false ∧
        ∀ version, self.runs legacyBase version = true → self.tableOrigin version = none
  else o.disabled ≠ some true ∧ o.supported.getD self.supported = self.supported ∧
    o.defaultVersion.getD self.defaultVersion = self.defaultVersion

/-- What a clean lint says about one world file. -/
structure WorldDef.Linted (world : WorldDef V) (legacyBase : V) : Prop where
  runs_of_mem : ∀ version ∈ world.versions, world.runs legacyBase version = true
  mem_of_runs : world.disabled = false → ∀ (version : V) (release : Release V),
    world.releases[version]? = some release → release.runsOn legacyBase = true →
      version ∈ world.versions
  released : world.disabled = false → world.supported = false → world.versions.isEmpty = false

/-- A clean lint of a world file, read off its checks. -/
lemma lintWorld_eq_nil {apworldName : String} {worldDef : WorldDef V} {root : String}
    {raw : TomlTable} {set : IndexSet V} (h : lintWorld apworldName worldDef root raw set = []) :
    worldDef.Linted set.legacyBase := by
  unfold lintWorld at h
  simp only [List.append_eq_nil_iff] at h
  obtain ⟨⟨⟨⟨⟨⟨-, -⟩, hreleases⟩, -⟩, hversions⟩, hempty⟩, -⟩ := h
  refine ⟨?_, ?_, ?_⟩
  · intro version hv
    have hall := List.filter_eq_nil_iff.mp (List.map_eq_nil_iff.mp hversions) version
      (Std.ExtTreeMap.mem_keys.mpr hv)
    unfold WorldDef.runs
    cases hr : worldDef.releases[version]? with
    | none => rfl
    | some release => simpa [hr] using hall
  · intro henabled version release hr hruns
    rw [lintReleasesTable, List.append_eq_nil_iff, List.flatMap_eq_nil_iff,
      List.flatMap_eq_nil_iff] at hreleases
    have hone := hreleases.2 (version, release)
      (Std.ExtTreeMap.mem_toList_iff_getElem?_eq_some.mpr hr)
    simp only [lintRelease, List.append_eq_nil_iff] at hone
    -- the last check of the release would warn
    have hwarn := hone.2
    rw [henabled, hruns] at hwarn
    by_contra hmem
    rw [← Std.ExtTreeMap.contains_iff_mem] at hmem
    simp [hmem] at hwarn
  · intro henabled hsupported
    cases he : worldDef.versions.isEmpty with
    | false => rfl
    | true => simp [he, henabled, hsupported] at hempty

/-- A clean lint of an index is clean on each world file. -/
lemma lint_eq_nil {root : String} {files : String → TomlTable} {set : IndexSet V}
    (h : lint root files set = []) {name : String} {worldDef : WorldDef V}
    (hdef : set.worldDefs[name]? = some worldDef) : worldDef.Linted set.legacyBase := by
  rw [lint, List.append_eq_nil_iff, List.flatMap_eq_nil_iff] at h
  exact lintWorld_eq_nil (h.2 (name, worldDef)
    (Std.ExtTreeMap.mem_toList_iff_getElem?_eq_some.mpr hdef))

omit [ToString V] in
/-- On a linted world that is enabled, the two tables offer the legacy base what `[versions]` does. -/
lemma WorldDef.Linted.offers_iff {self : WorldDef V} {legacyBase : V}
    (h : self.Linted legacyBase) (henabled : self.disabled = false) (version : V) :
    (self.runs legacyBase version = true ∧ (self.tableOrigin version).isSome) ↔
      version ∈ self.versions := by
  constructor
  · rintro ⟨hruns, htable⟩
    cases hr : self.releases[version]? with
    | some release =>
      exact h.mem_of_runs henabled version release hr (by simpa [WorldDef.runs, hr] using hruns)
    | none =>
      rw [WorldDef.tableOrigin, hr] at htable
      exact Std.ExtTreeMap.mem_iff_isSome_getElem?.mpr htable
  · intro hv
    refine ⟨h.runs_of_mem version hv, ?_⟩
    rw [Std.ExtTreeMap.mem_iff_isSome_getElem?] at hv
    cases hr : self.releases[version]? with
    | some release => simp [WorldDef.tableOrigin, hr]
    | none => simpa [WorldDef.tableOrigin, hr] using hv

omit [ToString V] in
/-- So the versions there are the same in the same order. -/
lemma WorldDef.Linted.keys_versionsFor {self : WorldDef V} {legacyBase : V}
    (h : self.Linted legacyBase) (henabled : self.disabled = false) (supported : Bool) :
    (self.versionsFor legacyBase supported).keys =
      (if supported then self.versions.insert legacyBase .supported else self.versions).keys := by
  apply List.Pairwise.eq_of_mem_iff (BTreeMap.keys_sorted _) (BTreeMap.keys_sorted _)
  intro version
  rw [Std.ExtTreeMap.mem_keys, Std.ExtTreeMap.mem_keys, Std.ExtTreeMap.mem_iff_isSome_getElem?,
    WorldDef.versionsFor_getElem?]
  have hoffers := h.offers_iff henabled version
  by_cases hcore : supported = true ∧ legacyBase = version
  · obtain ⟨rfl, rfl⟩ := hcore
    simp
  · rw [if_neg hcore]
    have hmem : version ∈ (if supported then self.versions.insert legacyBase .supported
        else self.versions) ↔ version ∈ self.versions := by
      cases supported with
      | false => rfl
      | true =>
        have hne : legacyBase ≠ version := fun heq => hcore ⟨rfl, heq⟩
        simp [Std.ExtTreeMap.mem_insert, hne]
    rw [hmem, ← hoffers]
    cases self.runs legacyBase version <;> simp

omit [ToString V] in
/-- What a base sees of a world, as it is compared. -/
lemma WorldDef.seenWith_summary {self : WorldDef V} {base : V} {o : Option (BaseOverride V)}
    {summary : Bool × VersionReq V × List V} :
    (self.seenWith base o).map World.summary = some summary ↔
      self.seenWith base o ≠ none ∧ summary = (self.supportedWith o, self.defaultVersionWith o,
        (self.versionsFor base (self.supportedWith o)).keys) := by
  simp only [WorldDef.seenWith]
  cases self.disabledWith o with
  | true => simp
  | false =>
    cases (self.versionsFor base (self.supportedWith o)).isEmpty with
    | true => simp
    | false => simp [World.summary, eq_comm]

omit [ToString V] in
/-- The legacy view of a linted world is the older one exactly when the table that applies there
changes nothing. -/
lemma WorldDef.Linted.seenWith_iff {worldDef : WorldDef V} {legacyBase : V}
    (h : worldDef.Linted legacyBase) (o : Option (BaseOverride V)) :
    (worldDef.seenWith legacyBase o).map World.summary = worldDef.olderView legacyBase ↔
      ∀ baseOverride, o = some baseOverride → worldDef.Harmless legacyBase baseOverride := by
  unfold WorldDef.olderView
  cases hd : worldDef.disabled with
  | true =>
    -- hidden from older lobbies: the view has to hide it as well
    rw [if_pos rfl, Option.map_eq_none_iff, WorldDef.seenWith_eq_none_iff]
    cases o with
    | none => simp [WorldDef.disabledWith, hd]
    | some b =>
      have hdisabled : worldDef.disabledWith (some b) = true ↔ b.disabled ≠ some false := by
        show b.disabled.getD worldDef.disabled = true ↔ _
        rw [hd]
        cases b.disabled with
        | none => simp
        | some d => cases d <;> simp
      simp [WorldDef.Harmless, hd, hdisabled, WorldDef.supportedWith]
  | false =>
    rw [if_neg Bool.false_ne_true, WorldDef.seenWith_summary, ne_eq,
      WorldDef.seenWith_eq_none_iff]
    have hdisabled : worldDef.disabledWith o = true ↔ ∃ b, o = some b ∧ b.disabled = some true := by
      rw [WorldDef.disabledWith, hd]
      cases o with
      | none => simp
      | some b =>
        cases hb : b.disabled with
        | none => simp [hb]
        | some d => cases d <;> simp [hb]
    -- with the top level's flag there is something to offer, as the lint has checked
    have hoffers : worldDef.supportedWith o = worldDef.supported →
        ¬ (worldDef.supportedWith o = false ∧ ∀ version, worldDef.runs legacyBase version = true →
          worldDef.tableOrigin version = none) := by
      rintro hsame ⟨hsupported, hnone⟩
      have hne := h.released hd (hsame ▸ hsupported)
      apply absurd hne
      rw [Bool.not_eq_false, BTreeMap.isEmpty_iff]
      intro version
      by_contra hv
      have hmem : version ∈ worldDef.versions := by
        rw [Std.ExtTreeMap.mem_iff_isSome_getElem?]
        exact Option.isSome_iff_ne_none.mpr hv
      obtain ⟨hruns, htable⟩ := (h.offers_iff hd version).mpr hmem
      rw [hnone version hruns] at htable
      cases htable
    simp only [Prod.mk.injEq]
    constructor
    · rintro ⟨hseen, hsupported, hdefault, -⟩ b rfl
      rw [WorldDef.Harmless, hd, if_neg Bool.false_ne_true]
      refine ⟨?_, hsupported.symm, hdefault.symm⟩
      intro hb
      exact hseen (.inl (hdisabled.mpr ⟨b, rfl, hb⟩))
    · intro hharmless
      have hsame : worldDef.supportedWith o = worldDef.supported ∧
          worldDef.defaultVersionWith o = worldDef.defaultVersion ∧
          ¬ worldDef.disabledWith o = true := by
        rw [hdisabled]
        cases o with
        | none => simp [WorldDef.supportedWith, WorldDef.defaultVersionWith]
        | some b =>
          have hb := hharmless b rfl
          rw [WorldDef.Harmless, hd, if_neg Bool.false_ne_true] at hb
          refine ⟨hb.2.1, hb.2.2, ?_⟩
          rintro ⟨b', hb', htrue⟩
          cases hb'
          exact hb.1 htrue
      obtain ⟨hsupported, hdefault, henabled⟩ := hsame
      refine ⟨?_, hsupported.symm, hdefault.symm, ?_⟩
      · rintro (htrue | hnothing)
        · exact henabled htrue
        · exact hoffers hsupported hnothing
      · rw [h.keys_versionsFor hd, hsupported]

/-- On an index with a clean lint the view of the legacy base is, world by world, what older lobbies
make of the top-level keys and `[versions]`, exactly when no `[base]` table that applies to the
legacy base changes anything there. -/
theorem lint_protects_iff (root : String) (files : String → TomlTable) (set : IndexSet V)
    (hlint : lint root files set = []) :
    (∀ (name : String) (worldDef : WorldDef V), set.worldDefs[name]? = some worldDef →
        set.legacy.worlds[name]?.map World.summary = worldDef.olderView set.legacyBase) ↔
      ∀ (name : String) (worldDef : WorldDef V), set.worldDefs[name]? = some worldDef →
        ∀ baseOverride, worldDef.overrideFor set.legacyBase = .ok (some baseOverride) →
          worldDef.Harmless set.legacyBase baseOverride := by
  apply forall_congr'
  intro name
  apply forall_congr'
  intro worldDef
  apply forall_congr'
  intro hdef
  obtain ⟨o, ho, hseen⟩ := IndexSet.worlds_of_def set.get_legacy hdef
  rw [← hseen, (lint_eq_nil hlint hdef).seenWith_iff o, ho]
  simp

/-- The tables of an index with one plain world file, with a `[base]` table if it has one. -/
def plainFiles (base : TomlTable) : String → TomlTable
  | "index.toml" => [("archipelago_repo", .text "https://github.com/ArchipelagoMW/Archipelago.git"),
      ("archipelago_version", .text "0.6.7"),
      ("bases", .table [("0.6.7", .table []), ("0.6.8", .table [])]),
      ("index_dir", .text "index"), ("index_homepage", .text "https://example.invalid/index")]
  | _ => base ++ [("name", .text "World"), ("versions", .table [("1.0.0", .table [])])]

/-- An index with one custom world and the given `[base]` tables. -/
def customWorld (baseOverrides : List (SemverReq PlainVersion × BaseOverride PlainVersion)) :
    IndexSource PlainVersion :=
  plainSource [("world",
    { plainWorld "World" [(plain 1 0 0, .default)] with baseOverrides := baseOverrides })]

/-- Without a `[base]` table the legacy view is the older one. -/
theorem lint_protects_plain_world :
    ∃ set, IndexSet.new (customWorld []) = .ok set ∧ lint "" (plainFiles []) set = [] ∧
      ∀ (name : String) (worldDef : WorldDef PlainVersion), set.worldDefs[name]? = some worldDef →
        set.legacy.worlds[name]?.map World.summary = worldDef.olderView set.legacyBase := by
  have hrun : (IndexSet.new (customWorld [])).toOption.any (fun set =>
      (lint "" (plainFiles []) set).isEmpty &&
        set.worldDefs.toList.all fun p => p.2.baseOverrides.isEmpty) = true := by
    decide
  obtain ⟨set, hset, hchecks⟩ := exists_ok_of_any hrun
  rw [Bool.and_eq_true, List.isEmpty_iff, List.all_eq_true] at hchecks
  obtain ⟨hclean, hnone⟩ := hchecks
  refine ⟨set, hset, hclean, (lint_protects_iff "" (plainFiles []) set hclean).mpr ?_⟩
  intro name worldDef hdef baseOverride ho
  have hempty := hnone _ (Std.ExtTreeMap.mem_toList_iff_getElem?_eq_some.mpr hdef)
  rw [WorldDef.overrideFor, List.isEmpty_iff.mp hempty] at ho
  cases ho

/-- The table `[base.">=0.6.7"]` with `supported = true`, decoded. -/
def coreFromLegacy : List (SemverReq PlainVersion × BaseOverride PlainVersion) :=
  [({ text := ">=0.6.7", matchesVersion := fun v => plain 0 6 7 ≤ v },
    { supported := some true, disabled := none, defaultVersion := none })]

/-- The same table as it is written. -/
def coreFromLegacyTable : TomlTable :=
  [("base", .table [(">=0.6.7", .table [("supported", .boolean true)])])]

/-- A table that calls a custom world supported from the legacy base on passes the lint, but that base
then has a core release 0.6.7 that older lobbies do not see. -/
theorem lint_misses_legacy_override :
    ∃ set, IndexSet.new (customWorld coreFromLegacy) = .ok set ∧
      lint "" (plainFiles coreFromLegacyTable) set = [] ∧
      ¬ ∀ (name : String) (worldDef : WorldDef PlainVersion),
        set.worldDefs[name]? = some worldDef →
          set.legacy.worlds[name]?.map World.summary = worldDef.olderView set.legacyBase := by
  have hrun : (IndexSet.new (customWorld coreFromLegacy)).toOption.any (fun set =>
      (lint "" (plainFiles coreFromLegacyTable) set).isEmpty &&
        set.worldDefs["world"]?.any fun worldDef =>
          set.legacy.worlds["world"]?.map World.summary ≠
            worldDef.olderView set.legacyBase) = true := by
    decide
  obtain ⟨set, hset, hchecks⟩ := exists_ok_of_any hrun
  rw [Bool.and_eq_true, List.isEmpty_iff] at hchecks
  obtain ⟨hclean, hdiffers⟩ := hchecks
  refine ⟨set, hset, hclean, ?_⟩
  intro hsame
  obtain ⟨worldDef, hdef, hne⟩ := (Option.any_eq_true _ _).mp hdiffers
  exact of_decide_eq_true hne (hsame "world" worldDef hdef)

end ArchipelagoXL.Apwm
