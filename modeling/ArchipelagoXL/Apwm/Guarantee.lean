import ArchipelagoXL.Apwm.Lint
import ArchipelagoXL.Apwm.Resolve

/-!
# What a lint without errors guarantees

A view keeps only worlds with a release, and the lint looks on each base at the default version of each world: a
specific one has to be there, and `latest_supported` is left to worlds with a core copy. So the default version of
a world that has one always stands for a release, and whatever asks for it or for the latest version gets one.
-/

namespace ArchipelagoXL.Apwm

variable {V : Type} [LinearOrder V]

/-- The default version of the world is not tied to a release that it lacks. -/
def World.DefaultServed (world : World V) : Prop :=
  match world.defaultVersion with
  | .specific version => version ∈ world.versions
  | .latestSupported => ∃ version : V, world.versions[version]? = some WorldOrigin.supported
  | _ => True

/-- A core world has its core copy at the version of the base. -/
lemma WorldDef.seenWith_supported {self : WorldDef V} {base : V} {o : Option (BaseOverride V)} {world : World V}
    (seen : self.seenWith base o = some world) (supported : world.supported = true) :
    world.versions[base]? = some .supported := by
  simp only [seenWith] at seen
  split at seen
  case isTrue => cases seen
  case isFalse =>
    split at seen
    case isTrue => cases seen
    case isFalse =>
      cases seen
      rw [versionsFor_getElem?, if_pos ⟨supported, rfl⟩]

/-- The default version of a served world that is not disabled stands for one of its releases. -/
lemma World.DefaultServed.release {world : World V} (served : world.DefaultServed)
    (released : world.versions.isEmpty = false) (enabled : world.defaultVersion ≠ .disabled) :
    ∃ version origin, world.defaultRelease = some (version, origin) ∧ version ∈ world.versions := by
  rw [DefaultServed] at served
  rw [World.defaultRelease]
  cases default : world.defaultVersion with
  | disabled => exact (enabled default).elim
  | latest =>
    obtain ⟨version, origin, latest⟩ := World.getLatestRelease_of_ne released
    have inWorld := (BTreeMap.maxByKey_toList_eq_some.mp latest).1
    exact ⟨version, origin, latest, BTreeMap.mem_iff_exists.mpr ⟨origin, inWorld⟩⟩
  | latestSupported =>
    rw [default] at served
    obtain ⟨core, here⟩ := served
    change ∃ version origin, world.versions.toList.find? (·.2.isSupported) = some (version, origin) ∧ _
    cases found : world.versions.toList.find? (·.2.isSupported) with
    | none =>
      have noCore := BTreeMap.find?_toList_eq_none.mp found core .supported here
      cases noCore
    | some release =>
      obtain ⟨version, origin⟩ := release
      have inWorld := (BTreeMap.find?_toList_eq_some.mp found).1
      exact ⟨version, origin, rfl, BTreeMap.mem_iff_exists.mpr ⟨origin, inWorld⟩⟩
  | specific version =>
    rw [default] at served
    obtain ⟨origin, here⟩ := BTreeMap.mem_iff_exists.mp served
    refine ⟨version, origin, ?_, served⟩
    simp only [World.pinned, World.getVersion, here, Option.map_some]

namespace Manifest

/-- A served world has a release for its default version and for the latest one. -/
lemma resolveWorldVersion_of_served {world : World V} (served : world.DefaultServed)
    (released : world.versions.isEmpty = false) (enabled : world.defaultVersion ≠ .disabled)
    {req : VersionReq V} (asked : req = .latest ∨ req = world.defaultVersion) :
    ∃ version ∈ world.versions, resolveWorldVersion world req = .ok (world, version) := by
  obtain ⟨version, origin, release, inWorld⟩ := served.release released enabled
  refine ⟨version, inWorld, ?_⟩
  have latest : resolveWorldVersion world .latest = .ok (world, version) := by
    rw [resolveWorldVersion, release]
    rfl
  rcases asked with rfl | rfl
  · exact latest
  · rw [World.defaultRelease] at release
    cases default : world.defaultVersion with
    | disabled => exact (enabled default).elim
    | latest => exact latest
    | latestSupported =>
      rw [default] at release
      rw [resolveWorldVersion, show world.getLatestSupportedRelease = some (version, origin) from release]
      rfl
    | specific wanted =>
      rw [default] at release
      rw [resolveWorldVersion, show world.pinned wanted = some (version, origin) from release]
      rfl

/-- What resolves world by world resolves as a whole, to versions that the worlds have. -/
lemma resolveWith_of_each {m : Manifest V} {index : Index V}
    (each : ∀ (name : String) (world : World V), index.worlds[name]? = some world →
      m.getVersionReq name index = .disabled ∨
        ∃ version ∈ world.versions,
          resolveWorldVersion world (m.getVersionReq name index) = .ok (world, version)) :
    (m.resolveWith index).2 = [] ∧
      ∀ (name : String) (world : World V) (version : V), (m.resolveWith index).1[name]? = some (world, version) →
        index.worlds[name]? = some world ∧ version ∈ world.versions := by
  constructor
  · apply resolveWith_snd_eq_nil_iff.mpr
    intro name world inIndex
    rw [failed]
    rcases each name world inIndex with disabled | ⟨version, _, resolves⟩
    · exact if_pos disabled
    · rw [resolves]
      exact ite_self none
  · intro name world version resolved
    obtain ⟨inIndex, resolves⟩ := resolveWith_eq_some.mp resolved
    refine ⟨inIndex, ?_⟩
    rcases each name world inIndex with disabled | ⟨version', inWorld, resolves'⟩
    · rw [disabled] at resolves
      cases resolves
    · rw [resolves'] at resolves
      cases resolves
      exact inWorld

end Manifest

variable [ToString V]

/-- What the lint says about the default version of a world on a base it says of the index. -/
lemma mem_lint_of_default {root : String} {files : String → TomlTable} {set : IndexSet V} {base : V} {index : Index V}
    (declared : set.get base = some index) {name : String} {worldDef : WorldDef V}
    (inFiles : set.worldDefs[name]? = some worldDef) {p : Problem}
    (mem : p ∈ lintDefaultVersion (relativeTo root worldDef.path) name base index) : p ∈ lint root files set := by
  rw [lint, List.mem_append]
  right
  refine List.mem_flatMap.mpr ⟨(name, worldDef), Std.ExtTreeMap.mem_toList_iff_getElem?_eq_some.mpr inFiles, ?_⟩
  rw [lintWorld, List.mem_append]
  right
  refine List.mem_flatMap.mpr ⟨(base, index), ?_, mem⟩
  exact Std.ExtTreeMap.mem_toList_iff_getElem?_eq_some.mpr declared

/-- Without errors the default version of each world is served on each base. -/
lemma defaultServed_of_lint {root : String} {files : String → TomlTable} {set : IndexSet V}
    (clean : ∀ p ∈ lint root files set, p.severity ≠ .error) {base : V} {index : Index V}
    (declared : set.get base = some index) {name : String} {world : World V}
    (inIndex : index.worlds[name]? = some world) : world.DefaultServed := by
  obtain ⟨worldDef, o, inFiles, _, seen⟩ := IndexSet.get_worlds declared inIndex
  have noError : ∀ p ∈ lintDefaultVersion (relativeTo root worldDef.path) name base index, p.severity ≠ .error :=
    fun p mem => clean p (mem_lint_of_default declared inFiles mem)
  rw [lintDefaultVersion, inIndex] at noError
  rw [World.DefaultServed]
  cases default : world.defaultVersion with
  | disabled => trivial
  | latest => trivial
  | latestSupported =>
    refine ⟨base, WorldDef.seenWith_supported seen ?_⟩
    cases supported : world.supported with
    | true => rfl
    | false =>
      simp only [default, supported, Bool.not_false, if_pos] at noError
      exact (noError _ List.mem_cons_self rfl).elim
  | specific version =>
    change version ∈ world.versions
    cases has : world.versions.contains version with
    | true => exact Std.ExtTreeMap.contains_iff_mem.mp has
    | false =>
      simp only [default, has, Bool.not_false, if_pos] at noError
      exact (noError _ List.mem_cons_self rfl).elim

/-- On an index without lint errors, each base resolves the default version of each of its worlds, and the latest
one of whatever worlds a manifest enables among those whose default version is not disabled. -/
theorem lint_guarantees_resolution (root : String) (files : String → TomlTable) (set : IndexSet V)
    (clean : ∀ p ∈ lint root files set, p.severity ≠ .error) (base : V) (index : Index V)
    (declared : set.get base = some index) :
    (∃ defaults, Manifest.fromIndexWithDefaultVersions index = .ok defaults ∧
      (defaults.resolveWith index).2 = []) ∧
    ∀ m : Manifest V,
      (∀ (name : String) (world : World V), index.worlds[name]? = some world →
        m.worlds[name]? = some .disabled ∨ m.worlds[name]? = some .latest ∧ world.defaultVersion ≠ .disabled) →
      (m.resolveWith index).2 = [] ∧
        (∀ (name : String) (world : World V), index.worlds[name]? = some world → m.worlds[name]? = some .latest →
          ∃ version, (m.resolveWith index).1[name]? = some (world, version)) ∧
        ∀ (name : String) (world : World V) (version : V), (m.resolveWith index).1[name]? = some (world, version) →
          index.worlds[name]? = some world ∧ version ∈ world.versions := by
  have released : ∀ (name : String) (world : World V), index.worlds[name]? = some world →
      world.versions.isEmpty = false := by
    intro name world inIndex
    exact IndexSource.viewForBase_versions (set.view_eq base index declared) inIndex
  have served : ∀ (name : String) (world : World V), index.worlds[name]? = some world → world.DefaultServed :=
    fun name world inIndex => defaultServed_of_lint clean declared inIndex
  constructor
  · have gets : ∃ worlds, BTreeMap.forEntriesM index.worlds (∅ : BTreeMap String (VersionReq V))
        (fun name world _ =>
          if world.getLatestRelease.isNone then .error s!"World `{name}` has no known release"
          else .ok (some world.defaultVersion)) = .ok worlds := by
      apply BTreeMap.forEntriesM_ok
      intro name world inIndex
      obtain ⟨version, origin, latest⟩ := World.getLatestRelease_of_ne (released name world inIndex)
      refine ⟨some world.defaultVersion, ?_⟩
      rw [latest]
      rfl
    obtain ⟨worlds, gets⟩ := gets
    have defaults : Manifest.fromIndexWithDefaultVersions index = .ok { (Manifest.new : Manifest V) with worlds } := by
      rw [Manifest.fromIndexWithDefaultVersions, Manifest.fromIndex, gets]
      rfl
    refine ⟨_, defaults, (Manifest.resolveWith_of_each fun name world inIndex => ?_).1⟩
    have req := Manifest.fromIndexWithDefaultVersions_worlds defaults inIndex
    rw [Manifest.getVersionReq, req, Option.getD_some]
    rcases eq_or_ne world.defaultVersion .disabled with disabled | enabled
    · exact .inl disabled
    · refine .inr ?_
      exact Manifest.resolveWorldVersion_of_served (served name world inIndex) (released name world inIndex) enabled
        (.inr rfl)
  · intro m sets
    have reqs : ∀ (name : String) (world : World V), index.worlds[name]? = some world →
        m.getVersionReq name index = .disabled ∨ ∃ version ∈ world.versions,
          Manifest.resolveWorldVersion world (m.getVersionReq name index) = .ok (world, version) := by
      intro name world inIndex
      rcases sets name world inIndex with disabled | ⟨latest, enabled⟩
      · rw [Manifest.getVersionReq, disabled]
        exact .inl rfl
      · rw [Manifest.getVersionReq, latest]
        refine .inr ?_
        exact Manifest.resolveWorldVersion_of_served (served name world inIndex) (released name world inIndex) enabled
          (.inl rfl)
    obtain ⟨noErrors, present⟩ := Manifest.resolveWith_of_each reqs
    refine ⟨noErrors, ?_, present⟩
    intro name world inIndex latest
    have req : m.getVersionReq name index = .latest := by rw [Manifest.getVersionReq, latest, Option.getD_some]
    rcases reqs name world inIndex with disabled | ⟨version, _, resolves⟩
    · rw [req] at disabled
      cases disabled
    · exact ⟨version, Manifest.resolveWith_eq_some.mpr ⟨inIndex, resolves⟩⟩

/-- The index of one custom world has no lint errors, so its default version resolves on the other base too. -/
theorem clean_index_resolves :
    ∃ (set : IndexSet PlainVersion) (index : Index PlainVersion), IndexSet.new (customWorld []) = .ok set ∧
      set.get (plain 0 6 8) = some index ∧
      ∃ defaults, Manifest.fromIndexWithDefaultVersions index = .ok defaults ∧
        (defaults.resolveWith index).2 = [] := by
  have run : (IndexSet.new (customWorld [])).toOption.any (fun set =>
      (lint "" (plainFiles []) set).isEmpty && (set.get (plain 0 6 8)).isSome) = true := by
    decide
  obtain ⟨set, made, checks⟩ := exists_ok_of_any run
  rw [Bool.and_eq_true, List.isEmpty_iff, Option.isSome_iff_exists] at checks
  obtain ⟨clean, index, declared⟩ := checks
  have noError : ∀ p ∈ lint "" (plainFiles []) set, p.severity ≠ .error := by
    rw [clean]
    exact fun p mem => absurd mem List.not_mem_nil
  refine ⟨set, index, made, declared, ?_⟩
  exact (lint_guarantees_resolution "" (plainFiles []) set noError (plain 0 6 8) index declared).1

end ArchipelagoXL.Apwm
