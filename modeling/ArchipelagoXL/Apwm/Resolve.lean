import ArchipelagoXL.Apwm.Manifest

/-!
# What a manifest resolves to

Three questions about the version a room gets: whether freezing a manifest keeps it
(`freeze_keeps_iff`), whether a world that the manifest does not mention gets its own default
(`own_default_iff`), and whether looking a world up by its game finds what the whole manifest resolves
to (`resolvers_agree_iff`). None of the three always holds; each theorem gives the exact condition,
and a small index stands beside it where it fails.
-/

namespace ArchipelagoXL.Apwm

variable {V : Type} [LinearOrder V]

/-! ### Worlds of a view -/

/-- Every world of a view has a release, so it has a latest one. -/
lemma World.getLatestRelease_of_ne {world : World V} (h : world.versions.isEmpty = false) :
    ∃ v o, world.getLatestRelease = some (v, o) := by
  cases hl : world.getLatestRelease with
  | some p => exact ⟨p.1, p.2, rfl⟩
  | none =>
    rw [World.getLatestRelease, BTreeMap.maxByKey_toList_eq_none, h] at hl
    cases hl

/-! ### Freezing -/

/-- The default version of the world is its greatest release: it says so itself, it names that
release, or that release is the only core one. -/
def World.DefaultIsGreatest (world : World V) : Prop :=
  match world.defaultVersion with
  | .latest => True
  | .latestSupported => ∃ v, world.versions[v]? = some .supported ∧
      (∀ u ∈ world.versions, u ≤ v) ∧ ∀ u : V, world.versions[u]? = some .supported → u = v
  | .specific v => v ∈ world.versions ∧ ∀ u ∈ world.versions, u ≤ v
  | .disabled => False

lemma isSupported_iff {origin : WorldOrigin} : origin.isSupported = true ↔ origin = .supported := by
  cases origin <;> simp [WorldOrigin.isSupported]

/-- The default version resolves to the greatest release exactly when it is that release. -/
lemma World.defaultRelease_iff {world : World V} {v : V} {o : WorldOrigin}
    (h : world.getLatestRelease = some (v, o)) :
    (∃ o', world.defaultRelease = some (v, o')) ↔ world.DefaultIsGreatest := by
  obtain ⟨hv, hmax⟩ := BTreeMap.maxByKey_toList_eq_some.mp h
  have hvm : v ∈ world.versions := BTreeMap.mem_iff_exists.mpr ⟨o, hv⟩
  unfold World.defaultRelease World.DefaultIsGreatest
  cases world.defaultVersion with
  | latest => simp [h]
  | disabled => simp
  | specific u =>
    constructor
    · rintro ⟨o', ho'⟩
      obtain ⟨a, ha, heq⟩ := Option.map_eq_some_iff.mp ho'
      cases heq
      exact ⟨hvm, hmax⟩
    · rintro ⟨hu, humax⟩
      obtain rfl : u = v := le_antisymm (hmax u hu) (humax v hvm)
      exact ⟨o, by simp [World.pinned, World.getVersion, hv]⟩
  | latestSupported =>
    constructor
    · rintro ⟨o', ho'⟩
      obtain ⟨hv', hsup, hfirst⟩ := BTreeMap.find?_toList_eq_some.mp ho'
      obtain rfl := isSupported_iff.mp hsup
      refine ⟨v, hv', hmax, ?_⟩
      intro u hu
      rcases (hmax u (BTreeMap.mem_iff_exists.mpr ⟨_, hu⟩)).lt_or_eq with hlt | heq
      · -- an earlier core release would have been found first
        have := hfirst u .supported hu hlt
        cases this
      · exact heq
    · rintro ⟨u, hu, humax, huniq⟩
      obtain rfl : u = v :=
        le_antisymm (hmax u (BTreeMap.mem_iff_exists.mpr ⟨_, hu⟩)) (humax v hvm)
      refine ⟨.supported, BTreeMap.find?_toList_eq_some.mpr ⟨hu, rfl, ?_⟩⟩
      intro j b hj hlt
      cases hb : b.isSupported with
      | false => rfl
      | true =>
        obtain rfl := isSupported_iff.mp hb
        exact absurd (huniq j hj) hlt.ne

namespace Manifest

/-- The worlds `freeze` pins: those left at the latest version that the index has. -/
def Pins (self : Manifest V) (index : Index V) (name : String) (world : World V) : Prop :=
  self.worlds[name]? = some .latest ∧ index.worlds[name]? = some world

/-- On worlds with releases `freeze` does not panic. -/
lemma freeze_ok {self : Manifest V} {index : Index V}
    (hne : ∀ (name : String) (world : World V), index.worlds[name]? = some world →
      world.versions.isEmpty = false) :
    ∃ frozen, self.freeze index = .ok frozen := by
  have hloop : ∃ worlds,
      BTreeMap.forEntriesM self.worlds self.worlds (freezeTurn index) = .ok worlds := by
    apply BTreeMap.forEntriesM_ok
    intro name req _
    unfold freezeTurn
    split
    · split
      · exact ⟨_, rfl⟩
      · rename_i world hworld
        obtain ⟨v, o, hl⟩ := World.getLatestRelease_of_ne (hne name world hworld)
        simp [hl]
    · exact ⟨_, rfl⟩
  obtain ⟨worlds, hworlds⟩ := hloop
  refine ⟨{ self with worlds }, ?_⟩
  unfold freeze
  rw [hworlds]
  rfl

/-- What a frozen manifest holds: the greatest release for what it pins, the rest as it was. -/
lemma freeze_spec {self frozen : Manifest V} {index : Index V}
    (h : self.freeze index = .ok frozen) :
    frozen.newApworldPolicy = self.newApworldPolicy ∧
      (∀ name world, self.Pins index name world → ∃ v o, world.getLatestRelease = some (v, o) ∧
        frozen.worlds[name]? = some (.specific v)) ∧
      ∀ name, (∀ world, ¬ self.Pins index name world) →
        frozen.worlds[name]? = self.worlds[name]? := by
  unfold freeze at h
  cases hw : BTreeMap.forEntriesM self.worlds self.worlds (freezeTurn index) with
  | error e =>
    rw [hw] at h
    cases h
  | ok worlds =>
    rw [hw] at h
    cases h
    obtain ⟨hin, hout⟩ := BTreeMap.forEntriesM_eq_ok.mp hw
    refine ⟨rfl, ?_, ?_⟩
    · rintro name world ⟨hlatest, hworld⟩
      have hturn := hin name .latest hlatest
      unfold freezeTurn at hturn
      rw [if_pos rfl, hworld] at hturn
      cases hl : world.getLatestRelease with
      | none => simp [hl] at hturn
      | some p =>
        obtain ⟨v, o⟩ := p
        refine ⟨v, o, rfl, ?_⟩
        simp only [hl, Except.ok.injEq] at hturn
        exact hturn.symm
    · intro name hpins
      cases hreq : self.worlds[name]? with
      | none =>
        show worlds[name]? = none
        rw [hout name hreq, hreq]
      | some req =>
        have hturn := hin name req hreq
        unfold freezeTurn at hturn
        split at hturn
        · rename_i hlatest
          subst hlatest
          split at hturn
          · injection hturn with hturn
            exact hturn.symm.trans hreq
          · rename_i world hworld
            exact absurd ⟨hreq, hworld⟩ (hpins world)
        · injection hturn with hturn
          exact hturn.symm.trans hreq

/-- A world that `freeze` leaves alone has the requirement it had. -/
lemma freeze_getVersionReq {self frozen : Manifest V} {index : Index V}
    (h : self.freeze index = .ok frozen) {name : String}
    (hpins : ∀ world, ¬ self.Pins index name world) :
    frozen.getVersionReq name index = self.getVersionReq name index := by
  obtain ⟨hpolicy, -, hkeep⟩ := freeze_spec h
  simp only [getVersionReq, hpolicy, hkeep name hpins]

/-- A pinned world resolves to its greatest release, whatever its default. -/
lemma freeze_resolved {self frozen : Manifest V} {index : Index V}
    (h : self.freeze index = .ok frozen) {name : String} {world : World V}
    (hpins : self.Pins index name world) :
    ∃ v o, world.getLatestRelease = some (v, o) ∧
      frozen.resolved index name world = some (world, v) ∧
      frozen.failed index name world = none := by
  obtain ⟨-, hpin, -⟩ := freeze_spec h
  obtain ⟨v, o, hl, hf⟩ := hpin name world hpins
  obtain ⟨hv, -⟩ := BTreeMap.maxByKey_toList_eq_some.mp hl
  refine ⟨v, o, hl, ?_, ?_⟩ <;>
    simp [resolved, failed, getVersionReq, hf, resolveWorldVersion, World.pinned,
      World.getVersion, hv, World.found, Except.toOption]

/-- Before freezing it resolves to the release of its default, or fails. -/
lemma resolved_of_latest {self : Manifest V} {index : Index V} {name : String} {world : World V}
    (h : self.worlds[name]? = some .latest) {v : V} :
    self.resolved index name world = some (world, v) ↔
      ∃ o, world.defaultRelease = some (v, o) := by
  simp only [resolved, getVersionReq, h, Option.getD_some, reduceCtorEq, if_false,
    resolveWorldVersion]
  cases world.defaultRelease with
  | none => simp [World.found, Except.toOption]
  | some p =>
    obtain ⟨u, o⟩ := p
    simp [World.found, Except.toOption]

/-- A world of the index that is not pinned is the only one of its name. -/
lemma not_pins {self : Manifest V} {index : Index V} {name : String} {world : World V}
    (hworld : index.worlds[name]? = some world) (hpins : ¬ self.Pins index name world) (w : World V) :
    ¬ self.Pins index name w := by
  rintro ⟨hlatest, hw⟩
  rw [hworld] at hw
  cases hw
  exact hpins ⟨hlatest, hworld⟩

/-- Freezing keeps the map of versions exactly when the default of every world it pins is that
world's greatest release. -/
lemma freeze_fst_iff {self frozen : Manifest V} {index : Index V}
    (h : self.freeze index = .ok frozen) :
    (frozen.resolveWith index).1 = (self.resolveWith index).1 ↔
      ∀ name world, self.Pins index name world → world.DefaultIsGreatest := by
  rw [resolveWith_fst_eq_iff]
  constructor
  · intro heq name world hpins
    obtain ⟨v, o, hl, hres, -⟩ := freeze_resolved h hpins
    have hname := heq name world hpins.2
    rw [hres] at hname
    exact (World.defaultRelease_iff hl).mp ((resolved_of_latest hpins.1).mp hname.symm)
  · intro hdefault name world hworld
    by_cases hpins : self.Pins index name world
    · obtain ⟨v, o, hl, hres, -⟩ := freeze_resolved h hpins
      rw [hres]
      symm
      rw [resolved_of_latest hpins.1, World.defaultRelease_iff hl]
      exact hdefault name world hpins
    · simp only [resolved, freeze_getVersionReq h (not_pins hworld hpins)]

/-- And then it keeps the errors too. -/
lemma freeze_snd {self frozen : Manifest V} {index : Index V} (h : self.freeze index = .ok frozen)
    (hdefault : ∀ name world, self.Pins index name world → world.DefaultIsGreatest) :
    (frozen.resolveWith index).2 = (self.resolveWith index).2 := by
  apply resolveWith_snd_congr
  intro name world hworld
  by_cases hpins : self.Pins index name world
  · obtain ⟨v, o, hl, -, hfail⟩ := freeze_resolved h hpins
    obtain ⟨o', ho'⟩ := (World.defaultRelease_iff hl).mpr (hdefault name world hpins)
    rw [hfail]
    simp [failed, getVersionReq, hpins.1, resolveWorldVersion, ho', World.found]
  · simp only [failed, freeze_getVersionReq h (not_pins hworld hpins)]

end Manifest

/-- Freezing a manifest on a view keeps what it means, the versions and the worlds in error, exactly
when every world it leaves at the latest version has its greatest release as its default. -/
theorem freeze_keeps_iff [ToString V] (source : IndexSource V) (base : V) (index : Index V)
    (hview : source.viewForBase base = .ok index) (m : Manifest V) :
    (∃ frozen, m.freeze index = .ok frozen ∧
        (frozen.resolveWith index).1 = (m.resolveWith index).1 ∧
        (frozen.resolveWith index).2.map (·.world) = (m.resolveWith index).2.map (·.world)) ↔
      ∀ (name : String) (world : World V), index.worlds[name]? = some world →
        m.worlds[name]? = some .latest → world.DefaultIsGreatest := by
  have hok : ∃ frozen, m.freeze index = .ok frozen :=
    Manifest.freeze_ok fun _ _ => IndexSource.viewForBase_versions hview
  obtain ⟨frozen, hfreeze⟩ := hok
  constructor
  · rintro ⟨f, hf, hfst, -⟩ name world hworld hlatest
    exact (Manifest.freeze_fst_iff hf).mp hfst name world ⟨hlatest, hworld⟩
  · intro hdefault
    have hpins : ∀ name world, m.Pins index name world → world.DefaultIsGreatest :=
      fun name world hp => hdefault name world hp.2 hp.1
    refine ⟨frozen, hfreeze, (Manifest.freeze_fst_iff hfreeze).mpr hpins, ?_⟩
    rw [Manifest.freeze_snd hfreeze hpins]

/-- A manifest that asks for the latest version of a world. -/
def wantsLatest : Manifest PlainVersion := Manifest.new.addVersionReq "world" .latest

/-- An index whose only world has two releases and the given default. -/
def twoReleases (defaultVersion : VersionReq PlainVersion) : IndexSource PlainVersion :=
  plainSource [("world", { plainWorld "World" [(plain 2 0 0, .default), (plain 3 0 0, .default)]
    with defaultVersion })]

/-- With the latest release as its default, freezing keeps the world where it is. -/
theorem freeze_keeps_latest :
    ∃ index, (twoReleases .latest).viewForBase (plain 0 6 7) = .ok index ∧
      ∃ frozen, wantsLatest.freeze index = .ok frozen ∧
        (frozen.resolveWith index).1 = (wantsLatest.resolveWith index).1 ∧
        (frozen.resolveWith index).2.map (·.world) =
          (wantsLatest.resolveWith index).2.map (·.world) := by
  have hrun : ((twoReleases .latest).viewForBase (plain 0 6 7)).toOption.any (fun index =>
      index.worlds.toList.all fun p => p.2.defaultVersion = .latest) = true := by
    decide
  obtain ⟨index, hview, hlatest⟩ := exists_ok_of_any hrun
  refine ⟨index, hview, (freeze_keeps_iff _ _ index hview wantsLatest).mpr ?_⟩
  intro name world hworld _
  have hmem := Std.ExtTreeMap.mem_toList_iff_getElem?_eq_some.mpr hworld
  have hdefault : world.defaultVersion = .latest := by
    simpa using List.all_eq_true.mp hlatest _ hmem
  simp [World.DefaultIsGreatest, hdefault]

/-- With version 2.0.0 as its default, a world of 3.0.0 moves from the one to the other. -/
theorem freeze_moves_held_back :
    ∃ index, (twoReleases (.specific (plain 2 0 0))).viewForBase (plain 0 6 7) = .ok index ∧
      ¬ ∃ frozen, wantsLatest.freeze index = .ok frozen ∧
        (frozen.resolveWith index).1 = (wantsLatest.resolveWith index).1 ∧
        (frozen.resolveWith index).2.map (·.world) =
          (wantsLatest.resolveWith index).2.map (·.world) := by
  have hrun : ((twoReleases (.specific (plain 2 0 0))).viewForBase (plain 0 6 7)).toOption.any
      (fun index => (wantsLatest.freeze index).toOption.any fun frozen =>
        (frozen.resolveWith index).1["world"]?.map (·.2) = some (plain 3 0 0) ∧
          (wantsLatest.resolveWith index).1["world"]?.map (·.2) = some (plain 2 0 0)) = true := by
    decide
  obtain ⟨index, hview, hfrozen⟩ := exists_ok_of_any hrun
  refine ⟨index, hview, ?_⟩
  rintro ⟨frozen, hfreeze, hmap, -⟩
  rw [hfreeze] at hfrozen
  obtain ⟨hafter, hbefore⟩ := of_decide_eq_true hfrozen
  rw [hmap, hbefore] at hafter
  revert hafter
  decide

/-! ### The worlds of a game -/

namespace Index

/-- The first world, in the order of the apworlds, of a game. -/
def FirstOf (index : Index V) (gameName name : String) (world : World V) : Prop :=
  index.worlds[name]? = some world ∧ world.name = gameName ∧
    ∀ (other : String) (w : World V), index.worlds[other]? = some w → other < name →
      w.name ≠ gameName

/-- A game has one first world. -/
lemma FirstOf.unique {index : Index V} {gameName name name' : String} {world world' : World V}
    (h : FirstOf index gameName name world) (h' : FirstOf index gameName name' world') :
    name = name' ∧ world = world' := by
  obtain ⟨hworld, hname, hfirst⟩ := h
  obtain ⟨hworld', hname', hfirst'⟩ := h'
  have hsame : name = name' := by
    rcases lt_trichotomy name name' with hlt | heq | hgt
    · exact absurd hname (hfirst' name world hworld hlt)
    · exact heq
    · exact absurd hname' (hfirst name' world' hworld' hgt)
  subst hsame
  rw [hworld] at hworld'
  exact ⟨rfl, Option.some.inj hworld'⟩

lemma find?_eq_some_iff {index : Index V} {gameName name : String} {world : World V} :
    index.worlds.toList.find? (·.2.name = gameName) = some (name, world) ↔
      FirstOf index gameName name world := by
  rw [BTreeMap.find?_toList_eq_some]
  simp [FirstOf]

/-- The game of a world has a first world, which comes no later. -/
lemma exists_firstOf {index : Index V} {name : String} {world : World V}
    (h : index.worlds[name]? = some world) :
    ∃ first firstWorld, FirstOf index world.name first firstWorld ∧ first ≤ name := by
  cases hfind : index.worlds.toList.find? (·.2.name = world.name) with
  | none =>
    have := BTreeMap.find?_toList_eq_none.mp hfind name world h
    simp at this
  | some p =>
    have hfirst : FirstOf index world.name p.1 p.2 := find?_eq_some_iff.mp hfind
    refine ⟨p.1, p.2, hfirst, ?_⟩
    by_contra hlt
    exact hfirst.2.2 name world h (not_le.mp hlt) rfl

/-- A game is looked up as its first world. -/
lemma getWorldByName_eq_some {index : Index V} {gameName : String} {world : World V} :
    index.getWorldByName gameName = some world ↔ ∃ name, FirstOf index gameName name world := by
  unfold getWorldByName
  rw [List.find?_map, Option.map_eq_some_iff]
  constructor
  · rintro ⟨⟨name, w⟩, hfind, rfl⟩
    exact ⟨name, find?_eq_some_iff.mp hfind⟩
  · rintro ⟨name, hfirst⟩
    exact ⟨(name, world), find?_eq_some_iff.mpr hfirst, rfl⟩

lemma getWorldByName_eq_none {index : Index V} {gameName : String} :
    index.getWorldByName gameName = none ↔
      ∀ (name : String) (world : World V), index.worlds[name]? = some world →
        world.name ≠ gameName := by
  unfold getWorldByName
  rw [List.find?_map, Option.map_eq_none_iff]
  exact BTreeMap.find?_toList_eq_none.trans (by simp)

end Index

/-! ### Worlds a manifest does not mention -/

namespace Manifest

/-- The world whose default `getVersionReq` takes for an apworld it has no entry for: the first one
of that name among the games. -/
lemma getVersionReq_of_absent {self : Manifest V} {index : Index V} {name : String}
    (hpolicy : self.newApworldPolicy = .enable) (h : self.worlds[name]? = none) :
    self.getVersionReq name index =
      ((index.getWorldByName name).map (·.defaultVersion)).getD .latest := by
  simp only [getVersionReq, h, hpolicy, Option.getD_none]
  rfl

/-- The manifest of the defaults has an entry for each world of the index. -/
lemma fromIndexWithDefaultVersions_worlds {index : Index V} {defaults : Manifest V}
    (h : fromIndexWithDefaultVersions index = .ok defaults) {name : String} {world : World V}
    (hworld : index.worlds[name]? = some world) :
    defaults.worlds[name]? = some world.defaultVersion := by
  unfold fromIndexWithDefaultVersions fromIndex at h
  cases hw : BTreeMap.forEntriesM index.worlds (∅ : BTreeMap String (VersionReq V))
      (fun name world _ =>
        if world.getLatestRelease.isNone then .error s!"World `{name}` has no known release"
        else .ok (some world.defaultVersion)) with
  | error e =>
    rw [hw] at h
    cases h
  | ok worlds =>
    rw [hw] at h
    cases h
    obtain ⟨hin, -⟩ := BTreeMap.forEntriesM_eq_ok.mp hw
    have hturn := hin name world hworld
    split at hturn
    · cases hturn
    · injection hturn with hturn
      exact hturn.symm

/-- Manifests with the same requirement on every world resolve alike. -/
lemma resolveWith_congr {m m' : Manifest V} {index : Index V}
    (h : ∀ (name : String) (world : World V), index.worlds[name]? = some world →
      m.getVersionReq name index = m'.getVersionReq name index) :
    m.resolveWith index = m'.resolveWith index := by
  refine Prod.ext (resolveWith_fst_eq_iff.mpr ?_) (resolveWith_snd_congr ?_)
  · intro name world hworld
    simp only [resolved, h name world hworld]
  · intro name world hworld
    simp only [failed, h name world hworld]

end Manifest

/-- The default of an apworld is the one that its name leads to among the games: that of the first
world of the game called so, or `latest` when no game is. -/
def Index.DefaultByGameName (index : Index V) (name : String) (world : World V) : Prop :=
  (∃ first firstWorld, index.FirstOf name first firstWorld ∧
      firstWorld.defaultVersion = world.defaultVersion) ∨
    (∀ (other : String) (w : World V), index.worlds[other]? = some w → w.name ≠ name) ∧
      world.defaultVersion = .latest

lemma Index.defaultByGameName_iff {index : Index V} {name : String} {world : World V} :
    ((index.getWorldByName name).map (·.defaultVersion)).getD .latest = world.defaultVersion ↔
      index.DefaultByGameName name world := by
  unfold Index.DefaultByGameName
  cases hfind : index.getWorldByName name with
  | some w =>
    obtain ⟨first, hfirst⟩ := Index.getWorldByName_eq_some.mp hfind
    constructor
    · intro h
      exact .inl ⟨first, w, hfirst, h⟩
    · rintro (⟨first', w', hfirst', h⟩ | ⟨hnone, -⟩)
      · rw [(hfirst.unique hfirst').2]
        exact h
      · exact absurd hfirst.2.1 (hnone first w hfirst.1)
  | none =>
    have hnone := Index.getWorldByName_eq_none.mp hfind
    constructor
    · intro h
      exact .inr ⟨hnone, h.symm⟩
    · rintro (⟨first, w, hfirst, -⟩ | ⟨-, h⟩)
      · exact absurd hfirst.2.1 (hnone first w hfirst.1)
      · exact h.symm

/-- A manifest that enables new worlds gives those it does not mention their own default, and the
empty one resolves like the one of all defaults, exactly when every world's default is that of the
first world whose game is called like its apworld, or `latest` if there is none. -/
theorem own_default_iff (index : Index V) :
    ((∀ m : Manifest V, m.newApworldPolicy = .enable →
        ∀ (name : String) (world : World V), index.worlds[name]? = some world →
          m.worlds[name]? = none → m.getVersionReq name index = world.defaultVersion) ∧
      ∀ defaults, Manifest.fromIndexWithDefaultVersions index = .ok defaults →
        Manifest.new.resolveWith index = defaults.resolveWith index) ↔
      ∀ (name : String) (world : World V), index.worlds[name]? = some world →
        index.DefaultByGameName name world := by
  have hnew : ∀ name : String, (Manifest.new : Manifest V).worlds[name]? = none := by
    intro name
    simp [Manifest.new]
  constructor
  · rintro ⟨hown, -⟩ name world hworld
    rw [← Index.defaultByGameName_iff, ← hown Manifest.new rfl name world hworld (hnew name)]
    exact (Manifest.getVersionReq_of_absent rfl (hnew name)).symm
  · intro hname
    have hown : ∀ m : Manifest V, m.newApworldPolicy = .enable →
        ∀ (name : String) (world : World V), index.worlds[name]? = some world →
          m.worlds[name]? = none → m.getVersionReq name index = world.defaultVersion := by
      intro m hpolicy name world hworld habsent
      rw [Manifest.getVersionReq_of_absent hpolicy habsent]
      exact Index.defaultByGameName_iff.mpr (hname name world hworld)
    refine ⟨hown, ?_⟩
    intro defaults hdefaults
    apply Manifest.resolveWith_congr
    intro name world hworld
    have hentry := Manifest.fromIndexWithDefaultVersions_worlds hdefaults hworld
    rw [hown Manifest.new rfl name world hworld (hnew name), Manifest.getVersionReq, hentry]
    rfl

/-- A world that is disabled by default is not skipped by the empty manifest but in error there. -/
theorem own_default_disabled :
    ∃ index, (twoReleases .disabled).viewForBase (plain 0 6 7) = .ok index ∧
      ¬ ((∀ m : Manifest PlainVersion, m.newApworldPolicy = .enable →
          ∀ (name : String) (world : World PlainVersion), index.worlds[name]? = some world →
            m.worlds[name]? = none → m.getVersionReq name index = world.defaultVersion) ∧
        ∀ defaults, Manifest.fromIndexWithDefaultVersions index = .ok defaults →
          Manifest.new.resolveWith index = defaults.resolveWith index) := by
  have hrun : ((twoReleases .disabled).viewForBase (plain 0 6 7)).toOption.any (fun index =>
      (Manifest.fromIndexWithDefaultVersions index).toOption.any fun defaults =>
        (Manifest.new.resolveWith index).2.length = 1 ∧
          (defaults.resolveWith index).2.length = 0) = true := by
    decide
  obtain ⟨index, hview, hdefaults⟩ := exists_ok_of_any hrun
  obtain ⟨defaults, hok, hlengths⟩ := exists_ok_of_any hdefaults
  refine ⟨index, hview, ?_⟩
  rintro ⟨-, hsame⟩
  obtain ⟨hone, hzero⟩ := of_decide_eq_true hlengths
  rw [hsame defaults hok, hzero] at hone
  cases hone

/-! ### Looking a world up by its game -/

namespace Manifest

/-- `resolveFromGameName` resolves the first world of the game. -/
lemma resolveFromGameName_eq_ok {self : Manifest V} {index : Index V} {gameName : String}
    {r : World V × V} :
    self.resolveFromGameName gameName index = .ok r ↔
      ∃ name world, Index.FirstOf index gameName name world ∧
        resolveWorldVersion world (self.getVersionReq name index) = .ok r := by
  unfold resolveFromGameName
  cases hfind : index.worlds.toList.find? (·.2.name = gameName) with
  | none =>
    constructor
    · intro h
      cases h
    · rintro ⟨name, world, hfirst, -⟩
      rw [Index.find?_eq_some_iff.mpr hfirst] at hfind
      cases hfind
  | some p =>
    have hp : Index.FirstOf index gameName p.1 p.2 := Index.find?_eq_some_iff.mp hfind
    constructor
    · intro h
      exact ⟨p.1, p.2, hp, h⟩
    · rintro ⟨name, world, hfirst, h⟩
      obtain ⟨hname, hworld⟩ := hp.unique hfirst
      rw [← hname, ← hworld] at h
      exact h

/-- An entry of `resolveWith` is an enabled world of the index with the version it resolves to. -/
lemma resolveWith_eq_some {self : Manifest V} {index : Index V} {name : String}
    {r : World V × V} :
    (self.resolveWith index).1[name]? = some r ↔
      index.worlds[name]? = some r.1 ∧
        resolveWorldVersion r.1 (self.getVersionReq name index) = .ok r := by
  rw [resolveWith_fst]
  constructor
  · intro h
    obtain ⟨world, hworld, hres⟩ := Option.bind_eq_some_iff.mp h
    unfold resolved at hres
    split at hres
    · cases hres
    · cases hr : resolveWorldVersion world (self.getVersionReq name index) with
      | error e =>
        rw [hr] at hres
        cases hres
      | ok r' =>
        rw [hr] at hres
        cases hres
        rw [resolveWorldVersion_fst hr]
        exact ⟨hworld, hr⟩
  · rintro ⟨hworld, hr⟩
    have hne : self.getVersionReq name index ≠ .disabled := by
      intro hd
      rw [hd] at hr
      cases hr
    rw [hworld]
    simp [resolved, hne, hr, Except.toOption]

end Manifest

/-- Looking a world up by its game finds what the whole manifest resolves to, and finds only that,
exactly when a world that the manifest resolves is the first of its game in the order of the
apworlds, or is the very same world as the first and is resolved to the same version there. -/
theorem resolvers_agree_iff (index : Index V) (m : Manifest V) :
    ((∀ (name : String) (world : World V) (version : V),
        (m.resolveWith index).1[name]? = some (world, version) →
          m.resolveFromGameName world.name index = .ok (world, version)) ∧
      ∀ (gameName : String) (world : World V) (version : V),
        m.resolveFromGameName gameName index = .ok (world, version) →
          ∃ name : String, (m.resolveWith index).1[name]? = some (world, version)) ↔
      ∀ (name : String) (world : World V) (first : String) (firstWorld : World V),
        index.worlds[name]? = some world →
        Index.FirstOf index world.name first firstWorld → first < name →
        (∀ version, Manifest.resolveWorldVersion world (m.getVersionReq name index) ≠
            .ok (world, version)) ∨
          firstWorld = world ∧
            Manifest.resolveWorldVersion world (m.getVersionReq first index) =
              Manifest.resolveWorldVersion world (m.getVersionReq name index) := by
  constructor
  · rintro ⟨hforward, -⟩ name world first firstWorld hworld hfirst hlt
    by_cases hres : ∃ version,
        Manifest.resolveWorldVersion world (m.getVersionReq name index) = .ok (world, version)
    · right
      obtain ⟨version, hres⟩ := hres
      have hgame := hforward name world version
        (Manifest.resolveWith_eq_some.mpr ⟨hworld, hres⟩)
      obtain ⟨first', firstWorld', hfirst', hr⟩ := Manifest.resolveFromGameName_eq_ok.mp hgame
      obtain ⟨rfl, rfl⟩ := hfirst'.unique hfirst
      obtain rfl : world = firstWorld' := Manifest.resolveWorldVersion_fst hr
      exact ⟨rfl, hr.trans hres.symm⟩
    · left
      intro version hv
      exact hres ⟨version, hv⟩
  · intro hcond
    refine ⟨?_, ?_⟩
    · intro name world version hentry
      obtain ⟨hworld, hres⟩ := Manifest.resolveWith_eq_some.mp hentry
      obtain ⟨first, firstWorld, hfirst, hle⟩ := Index.exists_firstOf hworld
      rw [Manifest.resolveFromGameName_eq_ok]
      rcases hle.lt_or_eq with hlt | rfl
      · rcases hcond name world first firstWorld hworld hfirst hlt with hno | ⟨rfl, hsame⟩
        · exact absurd hres (hno version)
        · exact ⟨first, firstWorld, hfirst, hsame.trans hres⟩
      · exact ⟨first, world, ⟨hworld, rfl, hfirst.2.2⟩, hres⟩
    · -- what is found by its game is an entry of the whole, whatever the index
      intro gameName world version hgame
      obtain ⟨name, world', hfirst, hres⟩ := Manifest.resolveFromGameName_eq_ok.mp hgame
      obtain rfl : world = world' := Manifest.resolveWorldVersion_fst hres
      exact ⟨name, Manifest.resolveWith_eq_some.mpr ⟨hfirst.1, hres⟩⟩

/-- Two apworlds for one game. -/
def sameGame : IndexSource PlainVersion :=
  plainSource [("fork", plainWorld "World" [(plain 1 0 0, .default)]),
    ("world", plainWorld "World" [(plain 2 0 0, .default)])]

/-- The second apworld of a game resolves to 2.0.0 in the whole manifest, but the game is looked up
as the first, at 1.0.0. -/
theorem resolvers_differ_on_same_game :
    ∃ index, sameGame.viewForBase (plain 0 6 7) = .ok index ∧
      ¬ ((∀ (name : String) (world : World PlainVersion) (version : PlainVersion),
          (wantsLatest.resolveWith index).1[name]? = some (world, version) →
            wantsLatest.resolveFromGameName world.name index = .ok (world, version)) ∧
        ∀ (gameName : String) (world : World PlainVersion) (version : PlainVersion),
          wantsLatest.resolveFromGameName gameName index = .ok (world, version) →
            ∃ name : String,
              (wantsLatest.resolveWith index).1[name]? = some (world, version)) := by
  have hrun : (sameGame.viewForBase (plain 0 6 7)).toOption.any (fun index =>
      (wantsLatest.resolveWith index).1["world"]?.any fun r => r.2 = plain 2 0 0 ∧
        (wantsLatest.resolveFromGameName r.1.name index).toOption.any
          (·.2 = plain 1 0 0)) = true := by
    decide
  obtain ⟨index, hview, hentry⟩ := exists_ok_of_any hrun
  refine ⟨index, hview, ?_⟩
  rintro ⟨hforward, -⟩
  obtain ⟨⟨world, version⟩, hworld, hboth⟩ := (Option.any_eq_true _ _).mp hentry
  obtain ⟨rfl, hgame⟩ := of_decide_eq_true hboth
  rw [hforward "world" world _ hworld] at hgame
  have heq : plain 2 0 0 = plain 1 0 0 := by
    simpa [Except.toOption] using hgame
  revert heq
  decide

end ArchipelagoXL.Apwm
