import ArchipelagoXL.Lib.OrdMap

/-!
# The index of worlds

`apwm` reads an index: `index.toml` with the Archipelago versions it describes (its bases), and one
file for each world (`WorldDef`). What rooms on one base see of it is an `Index`, built world by world
by `WorldDef.forBase`; an `IndexSet` holds the view of each base. The model starts at the decoded
files.

Versions are `semver::Version`, of which the crate uses that they are linearly ordered and can be
printed; requirements are `semver::VersionReq`, of which it uses the text and which versions match.
Both stay parameters: `V` is the type of versions.
-/

namespace ArchipelagoXL.Apwm

/-- Which version of a world is asked for (Rust `apwm::VersionReq`). -/
inductive VersionReq (V : Type) where
  | disabled
  | latest
  | latestSupported
  | specific (version : V)
deriving DecidableEq

/-- Rust `VersionReq::default`. -/
instance {V : Type} : Inhabited (VersionReq V) := ⟨.latest⟩

/-- Where a release comes from (Rust `WorldOrigin`). -/
inductive WorldOrigin where
  | url (uri : String)
  | localFile (path : String)
  | supported
  | default
deriving DecidableEq

/-- Rust `WorldOrigin::is_supported`. -/
def WorldOrigin.isSupported : WorldOrigin → Bool
  | .supported => true
  | _ => false

/-- Rust `WorldTag`. -/
inductive WorldTag where
  | afterDark
deriving DecidableEq

/-- An entry of `[releases]`: the bases that can run it and where to get it (Rust `Release`). -/
structure Release (V : Type) where
  minApVersion : Option V
  maxApVersion : Option V
  url : Option String
  localFile : Option String

/-- What a `[base."<requirement>"]` table overrides (Rust `BaseOverride`). -/
structure BaseOverride (V : Type) where
  supported : Option Bool
  disabled : Option Bool
  defaultVersion : Option (VersionReq V)

/-- A requirement on versions: its text and the versions that match (Rust `semver::VersionReq`). -/
structure SemverReq (V : Type) where
  text : String
  matchesVersion : V → Bool

section Data

variable (V : Type) [LinearOrder V]

/-- A world file (Rust `WorldDef`). -/
structure WorldDef where
  path : String
  name : String
  displayName : String
  defaultUrl : Option String
  defaultVersion : VersionReq V
  home : Option String
  versions : BTreeMap V WorldOrigin
  releases : BTreeMap V (Release V)
  disabled : Bool
  supported : Bool
  tags : List WorldTag
  rawBaseOverrides : BTreeMap String (BaseOverride V)
  baseOverrides : List (SemverReq V × BaseOverride V)

/-- A world as one base sees it (Rust `World`). -/
structure World where
  path : String
  name : String
  displayName : String
  defaultUrl : Option String
  defaultVersion : VersionReq V
  home : Option String
  versions : BTreeMap V WorldOrigin
  disabled : Bool
  supported : Bool
  tags : List WorldTag

/-- A `[bases."<version>"]` table, which says nothing but that it is there (Rust `BaseDef`). -/
structure BaseDef where

/-- `index.toml` (Rust `IndexFile`). -/
structure IndexFile where
  archipelagoRepo : String
  archipelagoVersion : V
  indexHomepage : String
  indexDir : String
  bases : BTreeMap V BaseDef

/-- The worlds and releases of one base (Rust `Index`). -/
structure Index where
  path : String
  archipelagoRepo : String
  archipelagoVersion : V
  indexHomepage : String
  indexDir : String
  worlds : BTreeMap String (World V)

/-- What is read from disk: `index.toml` and the world files under their apworld names. -/
structure IndexSource where
  path : String
  indexFile : IndexFile V
  worldDefs : BTreeMap String (WorldDef V)

end Data

variable {V : Type} [LinearOrder V]

/-- Both bounds are inclusive and a missing one constrains nothing (Rust `Release::runs_on`). -/
def Release.runsOn (self : Release V) (base : V) : Bool :=
  self.minApVersion.all (· ≤ base) && self.maxApVersion.all (base ≤ ·)

/-- Rust `Release::origin`. -/
def Release.origin (self : Release V) : Option WorldOrigin :=
  match self.url with
  | some url => some (.url url)
  | none => self.localFile.map .localFile

namespace WorldDef

variable [ToString V]

/-- The requirements of the `[base]` tables, read in order (the first loop of Rust `WorldDef::new`). -/
def parseOverrides (parse : String → Option (SemverReq V)) (name : String) :
    List (String × BaseOverride V) → Except String (List (SemverReq V × BaseOverride V))
  | [] => .ok []
  | (requirement, baseOverride) :: rest =>
    match parse requirement with
    | none => .error s!"World {name}: `{requirement}` in [base] isn't a version requirement"
    | some parsed => (parseOverrides parse name rest).map ((parsed, baseOverride) :: ·)

/-- The checks on a decoded world file, `parse` reading a requirement (Rust `WorldDef::new`). -/
def new (parse : String → Option (SemverReq V)) (path : String) (world : WorldDef V) :
    Except String (WorldDef V) := do
  let displayName := if world.displayName.isEmpty then world.name else world.displayName
  let baseOverrides ← parseOverrides parse world.name world.rawBaseOverrides.toList
  match world.releases.toList.find? fun p => p.2.url.isSome && p.2.localFile.isSome with
  | some (version, _) =>
    throw s!"World {world.name}: release {version} has both a `url` and a `local` path"
  | none =>
    return { world with
      path
      displayName
      rawBaseOverrides := ∅
      baseOverrides := world.baseOverrides ++ baseOverrides }

/-- The one `[base]` table that applies to a base (Rust `WorldDef::override_for`). -/
def overrideFor (self : WorldDef V) (base : V) : Except String (Option (BaseOverride V)) :=
  match self.baseOverrides.filter (·.1.matchesVersion base) with
  | [] => .ok none
  | [(_, baseOverride)] => .ok (some baseOverride)
  | (first, _) :: (second, _) :: _ =>
    .error s!"World {self.name}: both [base.\"{first.text}\"] and [base.\"{second.text}\"] apply to Archipelago {base}"

/-- Rust `WorldDef::for_base`, `disabled`. -/
def disabledWith (self : WorldDef V) (baseOverride : Option (BaseOverride V)) : Bool :=
  (baseOverride.bind (·.disabled)).getD self.disabled

/-- Rust `WorldDef::for_base`, `supported`. -/
def supportedWith (self : WorldDef V) (baseOverride : Option (BaseOverride V)) : Bool :=
  (baseOverride.bind (·.supported)).getD self.supported

/-- Rust `WorldDef::for_base`, `default_version`. -/
def defaultVersionWith (self : WorldDef V) (baseOverride : Option (BaseOverride V)) :
    VersionReq V :=
  (baseOverride.bind (·.defaultVersion)).getD self.defaultVersion

/-- The releases of `[versions]` that run on `base`, overlaid with those of `[releases]` (the two
loops of Rust `WorldDef::for_base`). -/
def offered (self : WorldDef V) (base : V) : BTreeMap V WorldOrigin :=
  let versions := BTreeMap.forEntries self.versions ∅ fun version origin entry =>
    if self.releases[version]?.all (·.runsOn base) then some origin else entry
  BTreeMap.forEntries self.releases versions fun _ release entry =>
    if release.runsOn base then
      match release.origin with
      | some origin => some origin
      -- a release that is also in `[versions]` keeps the origin it has there
      | none => some (entry.getD .default)
    else entry

/-- The releases a base sees, with the core copy at the base's own version. -/
def versionsFor (self : WorldDef V) (base : V) (supported : Bool) : BTreeMap V WorldOrigin :=
  if supported then (self.offered base).insert base .supported else self.offered base

/-- The world as rooms on `base` see it under the override that applies there, or `none` if it is
disabled or has no release there. -/
def seenWith (self : WorldDef V) (base : V) (baseOverride : Option (BaseOverride V)) :
    Option (World V) :=
  let disabled := self.disabledWith baseOverride
  if disabled then none
  else
    let supported := self.supportedWith baseOverride
    let versions := self.versionsFor base supported
    if versions.isEmpty then none
    else some
      { path := self.path
        name := self.name
        displayName := self.displayName
        defaultUrl := self.defaultUrl
        defaultVersion := self.defaultVersionWith baseOverride
        home := self.home
        versions
        disabled
        supported
        tags := self.tags }

/-- Rust `WorldDef::for_base`. -/
def forBase (self : WorldDef V) (base : V) : Except String (Option (World V)) := do
  let baseOverride ← self.overrideFor base
  return self.seenWith base baseOverride

end WorldDef

namespace World

/-- The release with the greatest version (Rust `World::get_latest_release`). -/
def getLatestRelease (self : World V) : Option (V × WorldOrigin) :=
  BTreeMap.maxByKey self.versions.toList

/-- Rust `World::get_latest_supported_release`. -/
def getLatestSupportedRelease (self : World V) : Option (V × WorldOrigin) :=
  self.versions.toList.find? (·.2.isSupported)

/-- Rust `World::get_version`. -/
def getVersion (self : World V) (version : V) : Option WorldOrigin :=
  self.versions[version]?

end World

/-- Rust `Index::get_world_by_name`, which takes the name of the game. -/
def Index.getWorldByName (self : Index V) (gameName : String) : Option (World V) :=
  (self.worlds.toList.map (·.2)).find? (·.name = gameName)

namespace IndexSource

variable [ToString V]

/-- The worlds that `base` sees (the loop of Rust `IndexSet::view_for_base`). -/
def worldsFor (self : IndexSource V) (base : V) : Except String (BTreeMap String (World V)) :=
  BTreeMap.forEntriesM self.worldDefs ∅ fun _ worldDef entry => do
    match ← worldDef.forBase base with
    | some world => return some world
    | none => return entry

/-- What `base` sees, declared or not (Rust `IndexSet::view_for_base`). -/
def viewForBase (self : IndexSource V) (base : V) : Except String (Index V) := do
  let worlds ← self.worldsFor base
  return {
    path := self.path
    archipelagoRepo := self.indexFile.archipelagoRepo
    archipelagoVersion := base
    indexHomepage := self.indexFile.indexHomepage
    indexDir := self.indexFile.indexDir
    worlds }

/-- The bases of the index: those of `[bases]`, and `archipelago_version` even if it is not there. -/
def baseVersions (self : IndexSource V) : List V :=
  let baseVersions := self.indexFile.bases.keys
  if self.indexFile.archipelagoVersion ∈ baseVersions then baseVersions
  else baseVersions ++ [self.indexFile.archipelagoVersion]

/-- The views of a list of bases (the last loop of Rust `IndexSet::new`). -/
def views (self : IndexSource V) : List V → BTreeMap V (Index V) →
    Except String (BTreeMap V (Index V))
  | [], bases => .ok bases
  | base :: rest, bases =>
    match self.viewForBase base with
    | .error e => .error e
    | .ok index => self.views rest (bases.insert base index)

end IndexSource

/-! ### Concrete indexes -/

/-- A computation checked to succeed has the value it was checked with. -/
lemma exists_ok_of_any {E A : Type} {x : Except E A} {p : A → Bool}
    (h : x.toOption.any p = true) : ∃ a, x = .ok a ∧ p a = true := by
  cases x with
  | error e => cases h
  | ok a => exact ⟨a, rfl, h⟩

/-- Versions without a pre-release or build part. -/
structure PlainVersion where
  major : ℕ
  minor : ℕ
  patch : ℕ
deriving DecidableEq

namespace PlainVersion

/-- The three numbers, compared from the left. -/
def numbers (v : PlainVersion) : ℕ ×ₗ ℕ ×ₗ ℕ := toLex (v.major, toLex (v.minor, v.patch))

lemma numbers_injective : Function.Injective numbers := by
  rintro ⟨a, b, c⟩ ⟨a', b', c'⟩ h
  simpa [numbers] using h

instance : LinearOrder PlainVersion := LinearOrder.lift' numbers numbers_injective

instance : ToString PlainVersion where
  toString v := s!"{v.major}.{v.minor}.{v.patch}"

end PlainVersion

/-- The version `major.minor.patch`. -/
def plain (major minor patch : ℕ) : PlainVersion := ⟨major, minor, patch⟩

/-- A world file that sets nothing but its name and its `[versions]`. -/
def plainWorld (name : String) (versions : List (PlainVersion × WorldOrigin)) :
    WorldDef PlainVersion where
  path := s!"index/{name}.toml"
  name := name
  displayName := name
  defaultUrl := none
  defaultVersion := .latest
  home := none
  versions := Std.ExtTreeMap.ofList versions
  releases := ∅
  disabled := false
  supported := false
  tags := []
  rawBaseOverrides := ∅
  baseOverrides := []

/-- An index of bases 0.6.7, the legacy one, and 0.6.8 with the given world files. -/
def plainSource (worldDefs : List (String × WorldDef PlainVersion)) :
    IndexSource PlainVersion where
  path := "index.toml"
  indexFile :=
    { archipelagoRepo := "https://github.com/ArchipelagoMW/Archipelago.git"
      archipelagoVersion := plain 0 6 7
      indexHomepage := "https://example.invalid/index"
      indexDir := "index"
      bases := Std.ExtTreeMap.ofList [(plain 0 6 7, BaseDef.mk), (plain 0 6 8, BaseDef.mk)] }
  worldDefs := Std.ExtTreeMap.ofList worldDefs

end ArchipelagoXL.Apwm
