import ArchipelagoXL.Apwm.Views

/-!
# Manifests

A room's manifest says which version of each world it wants. `resolveWith` turns it into versions for
a whole index, `resolveFromGameName` for one game, and `freeze` pins what is left open. All three go
through `getVersionReq` and, but for `freeze`, through `resolveWorldVersion`; the meaning of
`resolveWith` is stated world by world (`resolveWith_fst`, `resolveWith_snd`).
-/

namespace ArchipelagoXL.Apwm

variable {V : Type} [LinearOrder V]

/-- What a manifest does with a world it does not mention (Rust `NewApworldPolicy`). -/
inductive NewApworldPolicy where
  | enable
  | disable
deriving DecidableEq

/-- Rust `Manifest`. -/
structure Manifest (V : Type) where
  worlds : BTreeMap String (VersionReq V)
  newApworldPolicy : NewApworldPolicy

/-- Rust `ResolveError`. -/
inductive ResolveError (V : Type) where
  | worldNotFound (gameName : String)
  | versionNotFound (name : String) (req : VersionReq V)
  | worldDisabled (displayName : String)
deriving DecidableEq

/-- The world an error is about. -/
def ResolveError.world : ResolveError V → String
  | .worldNotFound gameName => gameName
  | .versionNotFound name _ => name
  | .worldDisabled displayName => displayName

/-- The end of `resolveWorldVersion`: a release was found for the requirement or was not. -/
def World.found (world : World V) (actual : VersionReq V) :
    Option (V × WorldOrigin) → Except (ResolveError V) (World V × V)
  | none => .error (.versionNotFound world.name actual)
  | some (version, _) => .ok (world, version)

/-- The release of a version, with the version (the `map` of Rust `resolve_world_version`). -/
def World.pinned (world : World V) (version : V) : Option (V × WorldOrigin) :=
  (world.getVersion version).map fun origin => (version, origin)

/-- The release a world's own `default_version` stands for. -/
def World.defaultRelease (world : World V) : Option (V × WorldOrigin) :=
  match world.defaultVersion with
  | .latest => world.getLatestRelease
  | .latestSupported => world.getLatestSupportedRelease
  | .specific version => world.pinned version
  | .disabled => none

/-! ### Requirements as texts -/

namespace VersionReq

/-- Rust `impl Display for VersionReq`. -/
def display [ToString V] : VersionReq V → String
  | .latest => "Latest"
  | .latestSupported => "Latest Supported"
  | .specific v => toString v
  | .disabled => "Disabled"

/-- Rust `VersionReq::parse`; `parseVersion` is `Version::parse`. -/
def parse (parseVersion : String → Except String V) (s : String) : Except String (VersionReq V) :=
  if s = "Latest" then .ok .latest
  else if s = "Latest Supported" then .ok .latestSupported
  else if s = "Disabled" then .ok .disabled
  else (parseVersion s).map .specific

end VersionReq

/-- What is used of `Version::parse`: it reads what `Display` writes, and what it reads starts with a
digit. -/
structure ReadsVersions [ToString V] (parseVersion : String → Except String V) : Prop where
  parse_toString : ∀ v : V, parseVersion (toString v) = .ok v
  starts_with_digit : ∀ (s : String) (v : V), parseVersion s = .ok v → s.toList.head?.any Char.isDigit = true

omit [LinearOrder V] in
/-- A requirement is read back from its text. -/
lemma VersionReq.parse_display [ToString V] {parseVersion : String → Except String V}
    (reads : ReadsVersions parseVersion) (req : VersionReq V) : parse parseVersion req.display = .ok req := by
  cases req with
  | disabled => rfl
  | latest => rfl
  | latestSupported => rfl
  | specific v =>
    have digit := reads.starts_with_digit _ v (reads.parse_toString v)
    -- the words start with a letter
    have other : ∀ word : String, word.toList.head?.any Char.isDigit = false → toString v ≠ word := by
      rintro word letter rfl
      rw [letter] at digit
      cases digit
    rw [parse, display, if_neg (other _ (by decide)), if_neg (other _ (by decide)), if_neg (other _ (by decide)),
      reads.parse_toString]
    rfl

namespace Manifest

/-- Rust `Manifest::new`. -/
def new : Manifest V := { worlds := ∅, newApworldPolicy := .enable }

/-- The requirement on a world (Rust `Manifest::get_version_req`). -/
def getVersionReq (self : Manifest V) (apworldName : String) (index : Index V) : VersionReq V :=
  self.worlds[apworldName]?.getD <| match self.newApworldPolicy with
    | .enable => ((index.getWorldByName apworldName).map (·.defaultVersion)).getD default
    | .disable => .disabled

/-- Whether a world is in the room (Rust `Manifest::is_enabled`). -/
def isEnabled (self : Manifest V) (apworldName : String) : Bool :=
  match self.newApworldPolicy with
  | .enable => (self.worlds[apworldName]?.map fun versionReq => decide (versionReq ≠ .disabled)).getD true
  | .disable => (self.worlds[apworldName]?.map fun versionReq => decide (versionReq ≠ .disabled)).getD false

/-- Rust `Manifest::add_version_req`. -/
def addVersionReq (self : Manifest V) (apworldName : String) (versionReq : VersionReq V) :
    Manifest V :=
  { self with worlds := self.worlds.insert apworldName versionReq }

/-- A manifest with an entry for every world of an index, each of which needs a release. -/
def fromIndex (index : Index V) (req : World V → VersionReq V) : Except String (Manifest V) := do
  let worlds ← BTreeMap.forEntriesM index.worlds ∅ fun name world _ =>
    if world.getLatestRelease.isNone then .error s!"World `{name}` has no known release"
    else .ok (some (req world))
  return { (new : Manifest V) with worlds }

/-- Rust `Manifest::from_index_with_latest_versions`. -/
def fromIndexWithLatestVersions (index : Index V) : Except String (Manifest V) :=
  fromIndex index fun _ => .latest

/-- Rust `Manifest::from_index_with_default_versions`. -/
def fromIndexWithDefaultVersions (index : Index V) : Except String (Manifest V) :=
  fromIndex index (·.defaultVersion)

/-- Rust `Manifest::resolve_world_version`. -/
def resolveWorldVersion (world : World V) (versionRequirement : VersionReq V) :
    Except (ResolveError V) (World V × V) :=
  match versionRequirement with
  | .latestSupported => world.found .latestSupported world.getLatestSupportedRelease
  -- when resolving Latest, respect the world's own default
  | .latest => world.found world.defaultVersion world.defaultRelease
  | .specific version =>
    world.found (.specific version) (world.pinned version <|> world.getLatestRelease)
  | .disabled => .error (.worldDisabled world.displayName)

/-- The turn of `resolveWith` for one world. -/
def resolveTurn (self : Manifest V) (index : Index V)
    (acc : BTreeMap String (World V × V) × List (ResolveError V)) (name : String)
    (world : World V) : BTreeMap String (World V × V) × List (ResolveError V) :=
  let versionRequirement := self.getVersionReq name index
  if versionRequirement = .disabled then acc
  else match resolveWorldVersion world versionRequirement with
    | .ok (_, version) => (acc.1.insert name (world, version), acc.2)
    | .error e => (acc.1, acc.2 ++ [e])

/-- The versions a manifest stands for, and what it cannot resolve (Rust `Manifest::resolve_with`). -/
def resolveWith (self : Manifest V) (index : Index V) :
    BTreeMap String (World V × V) × List (ResolveError V) :=
  index.worlds.foldl (self.resolveTurn index) (∅, [])

/-- Rust `Manifest::resolve_from_game_name`. -/
def resolveFromGameName (self : Manifest V) (gameName : String) (index : Index V) :
    Except (ResolveError V) (World V × V) :=
  match index.worlds.toList.find? (·.2.name = gameName) with
  | none => .error (.worldNotFound gameName)
  | some (apworldName, world) =>
    resolveWorldVersion world (self.getVersionReq apworldName index)

/-- The turn of `freeze` for one entry; the error is the panic of `unwrap` on a world without a
release. -/
def freezeTurn (index : Index V) (worldName : String) (versionReq : VersionReq V)
    (entry : Option (VersionReq V)) : Except String (Option (VersionReq V)) :=
  if versionReq = .latest then
    match index.worlds[worldName]? with
    | none => .ok entry
    | some world =>
      match world.getLatestRelease with
      | none => .error "called `Option::unwrap()` on a `None` value"
      | some (version, _) => .ok (some (.specific version))
  else .ok entry

/-- Pins the worlds left at their latest version (Rust `Manifest::freeze`). -/
def freeze (self : Manifest V) (index : Index V) : Except String (Manifest V) := do
  let worlds ← BTreeMap.forEntriesM self.worlds self.worlds (freezeTurn index)
  return { self with worlds }

/-- What `resolveWith` makes of one world: its version, if it has one. -/
def resolved (self : Manifest V) (index : Index V) (name : String) (world : World V) :
    Option (World V × V) :=
  if self.getVersionReq name index = .disabled then none
  else (resolveWorldVersion world (self.getVersionReq name index)).toOption

/-- What `resolveWith` makes of one world: its error, if it has one. -/
def failed (self : Manifest V) (index : Index V) (name : String) (world : World V) :
    Option (ResolveError V) :=
  if self.getVersionReq name index = .disabled then none
  else match resolveWorldVersion world (self.getVersionReq name index) with
    | .ok _ => none
    | .error e => some e

end Manifest

lemma World.found_eq_ok {world : World V} {actual : VersionReq V}
    {release : Option (V × WorldOrigin)} {r : World V × V} :
    world.found actual release = .ok r ↔ r.1 = world ∧ ∃ origin, release = some (r.2, origin) := by
  obtain ⟨w, v⟩ := r
  cases release with
  | none => simp [World.found]
  | some p =>
    obtain ⟨version, origin⟩ := p
    simp [World.found, eq_comm]

namespace Manifest

/-- A world that is not enabled is disabled. -/
lemma getVersionReq_of_not_enabled {m : Manifest V} {name : String} (off : m.isEnabled name = false)
    (index : Index V) : m.getVersionReq name index = .disabled := by
  unfold isEnabled at off
  unfold getVersionReq
  cases policy : m.newApworldPolicy with
  | enable =>
    cases entry : m.worlds[name]? with
    | none => simp [policy, entry] at off
    | some req => simpa [policy, entry] using off
  | disable =>
    cases entry : m.worlds[name]? with
    | none => rfl
    | some req => simpa [policy, entry] using off

/-- A resolved world is the world that was asked for. -/
lemma resolveWorldVersion_fst {world : World V} {req : VersionReq V} {r : World V × V}
    (h : resolveWorldVersion world req = .ok r) : r.1 = world := by
  cases req with
  | disabled => cases h
  | latest => exact (World.found_eq_ok.mp h).1
  | latestSupported => exact (World.found_eq_ok.mp h).1
  | specific version => exact (World.found_eq_ok.mp h).1

/-- One turn, split into the map and the errors. -/
lemma resolveTurn_eq (self : Manifest V) (index : Index V)
    (acc : BTreeMap String (World V × V) × List (ResolveError V)) (name : String)
    (world : World V) :
    self.resolveTurn index acc name world =
      (BTreeMap.turn (fun name world entry => (self.resolved index name world).or entry) acc.1
          name world,
        acc.2 ++ (self.failed index name world).toList) := by
  unfold resolveTurn resolved failed BTreeMap.turn
  simp only
  split
  · simp [BTreeMap.alter_self]
  · split
    · rename_i w version hr
      obtain rfl := resolveWorldVersion_fst hr
      refine Prod.ext ?_ (by simp [hr])
      apply Std.ExtTreeMap.ext_getElem?
      intro k
      simp [hr, Std.ExtTreeMap.getElem?_alter, Std.ExtTreeMap.getElem?_insert, Except.toOption]
    · rename_i e hr
      refine Prod.ext ?_ (by simp [hr])
      simp [hr, Except.toOption, BTreeMap.alter_self]

/-- The whole loop, split into the map and the errors. -/
lemma foldl_resolveTurn (self : Manifest V) (index : Index V) (l : List (String × World V))
    (acc : BTreeMap String (World V × V) × List (ResolveError V)) :
    l.foldl (fun acc p => self.resolveTurn index acc p.1 p.2) acc =
      (l.foldl (fun acc p => BTreeMap.turn
          (fun name world entry => (self.resolved index name world).or entry) acc p.1 p.2) acc.1,
        acc.2 ++ l.filterMap fun p => self.failed index p.1 p.2) := by
  induction l generalizing acc with
  | nil => simp
  | cons p l ih =>
    rw [List.foldl_cons, ih, resolveTurn_eq]
    refine Prod.ext rfl ?_
    cases hf : self.failed index p.1 p.2 <;> simp [hf]

/-- The versions of `resolveWith`, world by world. -/
theorem resolveWith_fst (self : Manifest V) (index : Index V) (name : String) :
    (self.resolveWith index).1[name]? = index.worlds[name]?.bind (self.resolved index name) := by
  have h : (self.resolveWith index).1 = BTreeMap.forEntries index.worlds ∅
      fun name world entry => (self.resolved index name world).or entry := by
    unfold resolveWith BTreeMap.forEntries
    rw [Std.ExtTreeMap.foldl_eq_foldl_toList, Std.ExtTreeMap.foldl_eq_foldl_toList,
      foldl_resolveTurn]
  rw [h, BTreeMap.getElem?_forEntries]
  cases index.worlds[name]? <;> simp

/-- The errors of `resolveWith`, in the order of the worlds. -/
theorem resolveWith_snd (self : Manifest V) (index : Index V) :
    (self.resolveWith index).2 =
      index.worlds.toList.filterMap fun p => self.failed index p.1 p.2 := by
  unfold resolveWith
  rw [Std.ExtTreeMap.foldl_eq_foldl_toList, foldl_resolveTurn]
  rfl

/-- Two manifests resolve to the same versions exactly when they do for each world. -/
lemma resolveWith_fst_eq_iff {m m' : Manifest V} {index : Index V} :
    (m.resolveWith index).1 = (m'.resolveWith index).1 ↔
      ∀ (name : String) (world : World V), index.worlds[name]? = some world →
        m.resolved index name world = m'.resolved index name world := by
  constructor
  · intro same name world here
    have at_ := congrArg (fun versions => versions[name]?) same
    simpa only [resolveWith_fst, here, Option.bind_some] using at_
  · intro each
    apply Std.ExtTreeMap.ext_getElem?
    intro name
    rw [resolveWith_fst, resolveWith_fst]
    cases here : index.worlds[name]? with
    | none => rfl
    | some world => exact each name world here

/-- Two manifests that fail alike for each world have the same errors. -/
lemma resolveWith_snd_congr {m m' : Manifest V} {index : Index V}
    (each : ∀ (name : String) (world : World V), index.worlds[name]? = some world →
      m.failed index name world = m'.failed index name world) :
    (m.resolveWith index).2 = (m'.resolveWith index).2 := by
  rw [resolveWith_snd, resolveWith_snd]
  apply List.filterMap_congr
  rintro ⟨name, world⟩ mem
  exact each name world (Std.ExtTreeMap.mem_toList_iff_getElem?_eq_some.mp mem)

/-- A manifest resolves without errors exactly when no world fails. -/
lemma resolveWith_snd_eq_nil_iff {m : Manifest V} {index : Index V} :
    (m.resolveWith index).2 = [] ↔
      ∀ (name : String) (world : World V), index.worlds[name]? = some world → m.failed index name world = none := by
  rw [resolveWith_snd, List.filterMap_eq_nil_iff]
  constructor
  · intro none_ name world here
    exact none_ (name, world) (Std.ExtTreeMap.mem_toList_iff_getElem?_eq_some.mpr here)
  · rintro none_ ⟨name, world⟩ mem
    exact none_ name world (Std.ExtTreeMap.mem_toList_iff_getElem?_eq_some.mp mem)

end Manifest

end ArchipelagoXL.Apwm
