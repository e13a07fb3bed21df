import ArchipelagoXL.Apwm.Resolve

/-!
# The manifest editor

The form of a room shows its manifest world by world: a box for whether the world is in, and a choice
of versions with the current one selected (`ManifestFormBuilder.rows`). Saving the form builds a new
manifest from what was sent (`manifestFromForm`). A release that the index supports is offered as the
latest supported one only, so a manifest that pins it, or pins a release that is gone, comes back
without its pin; `untouchedForm_keeps_iff` says when the saved manifest still resolves to the same.
-/

namespace ArchipelagoXL.Lobby

open Apwm

variable {V : Type} [LinearOrder V]

/-! ## The form -/

/-- Rust `ManifestForm`, of whose maps only single entries are looked up. -/
structure ManifestForm where
  newApworldPolicy : String
  enabled : BTreeMap String Bool
  version : BTreeMap String String

/-- Rust `ManifestFormRow`. -/
structure ManifestFormRow (V : Type) [LinearOrder V] where
  apworldName : String
  world : World V
  enabled : Bool
  currentVersion : VersionReq V
  validVersions : List (VersionReq V)

/-- Rust `ManifestFormBuilder`. -/
structure ManifestFormBuilder (V : Type) [LinearOrder V] where
  index : Index V
  manifest : Manifest V

/-- The requirements that the page offers for a world of the index (Rust `valid_options_for_apworld`). -/
def validOptionsForApworld (world : World V) : List (VersionReq V) :=
  .latest :: world.versions.toList.map fun release =>
    if release.2.isSupported then .latestSupported else .specific release.1

namespace ManifestFormBuilder

/-- The turn of `rows` for one world. -/
def row (self : ManifestFormBuilder V) (apworldName : String) (world : World V) : ManifestFormRow V where
  apworldName
  world
  enabled := self.manifest.isEnabled apworldName
  currentVersion := self.manifest.getVersionReq apworldName self.index
  validVersions := validOptionsForApworld world

/-- Rust `ManifestFormBuilder::rows`. -/
def rows (self : ManifestFormBuilder V) : List (ManifestFormRow V) :=
  (self.index.worlds.toList.map fun p => self.row p.1 p.2).insertionSort
    fun a b => a.world.displayName ≤ b.world.displayName

end ManifestFormBuilder

/-- What a browser shows for `emit_apworld_version_select`: the last option that is marked as selected,
or the first one when none is. -/
def ManifestFormRow.selected (row : ManifestFormRow V) : Option (VersionReq V) :=
  (row.validVersions.filter fun version => version = row.currentVersion).getLast? <|> row.validVersions.head?

/-- What a browser sends of a form that nobody touched (`manifest_editor.html`). -/
def ManifestFormBuilder.untouched [ToString V] (self : ManifestFormBuilder V) : ManifestForm where
  newApworldPolicy := match self.manifest.newApworldPolicy with
    | .enable => "enable"
    | .disable => "disable"
  enabled := BTreeMap.collect ((self.rows.filter (·.enabled)).map fun row => (row.apworldName, true))
  version := BTreeMap.collect (self.rows.filterMap fun row =>
    row.selected.map fun version => (row.apworldName, version.display))

/-- The turn of `manifestFromForm` for one world. -/
def ManifestForm.versionReq (form : ManifestForm) (parseVersion : String → Except String V) (worldName : String) :
    Except String (VersionReq V) :=
  if form.enabled.contains worldName then
    match form.version[worldName]? with
    | none => .error "Invalid form. You have a world that is enabled but doesn't have a version requirement"
    | some versionReq => VersionReq.parse parseVersion versionReq
  else .ok .disabled

/-- Rust `manifest_from_form`; `parseVersion` is `Version::parse`. -/
def manifestFromForm (parseVersion : String → Except String V) (form : ManifestForm) (index : Index V) :
    Except String (Manifest V) := do
  let newApworldPolicy : NewApworldPolicy := if form.newApworldPolicy = "disable" then .disable else .enable
  let worlds ← BTreeMap.forEntriesM index.worlds (Manifest.new : Manifest V).worlds fun worldName _ _ =>
    (form.versionReq parseVersion worldName).map some
  let newManifest : Manifest V := { worlds, newApworldPolicy }
  if (newManifest.resolveWith index).2.isEmpty then .ok newManifest
  else .error "Error while resolving your room requirements with the current index"

/-! ## What the form shows -/

/-- The last of the elements equal to one is that one. -/
lemma getLast?_filter_eq {A : Type} [DecidableEq A] (l : List A) (a : A) :
    (l.filter fun b => b = a).getLast? = if a ∈ l then some a else none := by
  split
  · rename_i mem
    have found : (l.filter fun b => b = a) ≠ [] := List.ne_nil_of_mem (List.mem_filter.mpr ⟨mem, by simp⟩)
    rw [List.getLast?_eq_some_getLast found]
    exact congrArg some (of_decide_eq_true (List.mem_filter.mp (List.getLast_mem found)).2)
  · rename_i notMem
    rw [List.filter_eq_nil_iff.mpr, List.getLast?_nil]
    intro b mem
    rw [decide_eq_true_eq]
    rintro rfl
    exact notMem mem

namespace ManifestFormBuilder

variable {builder : ManifestFormBuilder V} {name : String} {world : World V}

/-- The requirement that the form shows for a world. -/
def shown (self : ManifestFormBuilder V) (name : String) (world : World V) : VersionReq V :=
  if self.manifest.getVersionReq name self.index ∈ validOptionsForApworld world then
    self.manifest.getVersionReq name self.index
  else .latest

lemma selected_row : (builder.row name world).selected = some (builder.shown name world) := by
  rw [ManifestFormRow.selected, getLast?_filter_eq, shown]
  by_cases offered : builder.manifest.getVersionReq name builder.index ∈ validOptionsForApworld world
  · rw [if_pos offered]
    exact if_pos offered ▸ rfl
  · rw [if_neg offered]
    exact if_neg offered ▸ rfl

lemma mem_rows {row : ManifestFormRow V} :
    row ∈ builder.rows ↔ ∃ name world, builder.index.worlds[name]? = some world ∧ row = builder.row name world := by
  rw [rows, List.mem_insertionSort, List.mem_map]
  constructor
  · rintro ⟨⟨name, world⟩, mem, rfl⟩
    exact ⟨name, world, Std.ExtTreeMap.mem_toList_iff_getElem?_eq_some.mp mem, rfl⟩
  · rintro ⟨name, world, here, rfl⟩
    exact ⟨(name, world), Std.ExtTreeMap.mem_toList_iff_getElem?_eq_some.mpr here, rfl⟩

/-- Each world has one row. -/
lemma rows_nodup : (builder.rows.map (·.apworldName)).Nodup := by
  have sorted := (List.perm_insertionSort (fun a b : ManifestFormRow V => a.world.displayName ≤ b.world.displayName)
    (builder.index.worlds.toList.map fun p => builder.row p.1 p.2)).map (·.apworldName)
  rw [rows, sorted.nodup_iff, List.map_map]
  exact List.pairwise_map.mpr ((BTreeMap.toList_sorted builder.index.worlds).imp fun lt => lt.ne)

section

variable [ToString V]

/-- The box of a world is checked when the manifest has the world. -/
lemma contains_enabled (here : builder.index.worlds[name]? = some world) :
    builder.untouched.enabled.contains name = builder.manifest.isEnabled name := by
  have mem : builder.row name world ∈ builder.rows := mem_rows.mpr ⟨name, world, here, rfl⟩
  rw [Std.ExtTreeMap.contains_eq_isSome_getElem?]
  cases enabled : builder.manifest.isEnabled name with
  | true =>
    have nodup : (((builder.rows.filter (·.enabled)).map fun row => (row.apworldName, true)).map Prod.fst).Nodup := by
      rw [List.map_map]
      exact rows_nodup.sublist (List.filter_sublist.map _)
    have checked : builder.untouched.enabled[name]? = some true :=
      BTreeMap.getElem?_collect_of_mem nodup (List.mem_map.mpr ⟨_, List.mem_filter.mpr ⟨mem, enabled⟩, rfl⟩)
    rw [checked]
    rfl
  | false =>
    rw [untouched, BTreeMap.collect, BTreeMap.getElem?_foldl_insert_of_notMem]
    · rfl
    · rw [List.map_map]
      intro there
      obtain ⟨row, mem', same⟩ := List.mem_map.mp there
      obtain ⟨mem', checked⟩ := List.mem_filter.mp mem'
      obtain ⟨name', world', -, rfl⟩ := mem_rows.mp mem'
      obtain rfl : name' = name := same
      rw [row, enabled] at checked
      cases checked

/-- The choice of a world is what the form shows for it. -/
lemma getElem?_version (here : builder.index.worlds[name]? = some world) :
    builder.untouched.version[name]? = some (builder.shown name world).display := by
  have mem : builder.row name world ∈ builder.rows := mem_rows.mpr ⟨name, world, here, rfl⟩
  apply BTreeMap.getElem?_collect_of_mem
  · have names : (builder.rows.map (·.apworldName)).Nodup := rows_nodup
    have apart := List.pairwise_map.mp names
    refine List.pairwise_map.mpr (apart.filterMap _ ?_)
    intro row row' ne entry sent entry' sent'
    obtain ⟨_, -, rfl⟩ := Option.map_eq_some_iff.mp sent
    obtain ⟨_, -, rfl⟩ := Option.map_eq_some_iff.mp sent'
    exact ne
  · refine List.mem_filterMap.mpr ⟨_, mem, ?_⟩
    rw [selected_row]
    rfl

/-- What the form asks of a world when nobody touches it. -/
def kept (self : ManifestFormBuilder V) (name : String) (world : World V) : VersionReq V :=
  if self.manifest.isEnabled name then self.shown name world else .disabled

lemma versionReq_untouched {parseVersion : String → Except String V} (reads : ReadsVersions parseVersion)
    (here : builder.index.worlds[name]? = some world) :
    builder.untouched.versionReq parseVersion name = .ok (builder.kept name world) := by
  rw [ManifestForm.versionReq, contains_enabled here, getElem?_version here, kept]
  split
  · exact VersionReq.parse_display reads _
  · rfl

/-- Saving the untouched form makes a manifest of what it asks, if that resolves. -/
lemma manifestFromForm_untouched {parseVersion : String → Except String V} (reads : ReadsVersions parseVersion)
    (builder : ManifestFormBuilder V) :
    ∃ saved : Manifest V,
      (∀ (name : String) (world : World V), builder.index.worlds[name]? = some world →
        saved.getVersionReq name builder.index = builder.kept name world) ∧
      ∀ m, manifestFromForm parseVersion builder.untouched builder.index = .ok m ↔
        m = saved ∧ (saved.resolveWith builder.index).2 = [] := by
  obtain ⟨worlds, loop⟩ : ∃ worlds, BTreeMap.forEntriesM builder.index.worlds (Manifest.new : Manifest V).worlds
      (fun worldName _ _ => (builder.untouched.versionReq parseVersion worldName).map some) = .ok worlds := by
    apply BTreeMap.forEntriesM_ok
    intro name world here
    rw [versionReq_untouched reads here]
    exact ⟨_, rfl⟩
  refine ⟨⟨worlds, if builder.untouched.newApworldPolicy = "disable" then .disable else .enable⟩, ?_, ?_⟩
  · intro name world here
    have turn := (BTreeMap.forEntriesM_eq_ok.mp loop).1 name world here
    rw [versionReq_untouched reads here] at turn
    rw [Manifest.getVersionReq, ← Except.ok.inj turn, Option.getD_some]
  · intro m
    rw [manifestFromForm, loop]
    dsimp only [bind, Except.bind]
    generalize (if builder.untouched.newApworldPolicy = "disable" then NewApworldPolicy.disable else .enable) = policy
    split
    · rename_i resolves
      constructor
      · intro same
        exact ⟨(Except.ok.inj same).symm, List.isEmpty_iff.mp resolves⟩
      · rintro ⟨rfl, -⟩
        rfl
    · rename_i unresolved
      constructor
      · intro same
        cases same
      · rintro ⟨-, resolves⟩
        exact absurd (List.isEmpty_iff.mpr resolves) unresolved

end

end ManifestFormBuilder

/-! ## What a requirement comes to -/

/-- What `resolveWith` makes of a requirement on a world: nothing when it is disabled, a version, or an
error. -/
def outcome (world : World V) (req : VersionReq V) : Except (ResolveError V) (Option (World V × V)) :=
  if req = .disabled then .ok none else (Manifest.resolveWorldVersion world req).map some

section

variable {m : Manifest V} {index : Index V} {name : String} {world : World V}

lemma outcome_ok_iff {r : Option (World V × V)} :
    outcome world (m.getVersionReq name index) = .ok r ↔
      m.failed index name world = none ∧ m.resolved index name world = r := by
  unfold outcome Manifest.failed Manifest.resolved
  split
  · simp [eq_comm]
  · cases Manifest.resolveWorldVersion world (m.getVersionReq name index) with
    | error e => simp [Except.map]
    | ok v => simp [Except.map, Except.toOption]

/-- Where a manifest resolves, another resolves to the same exactly when each of its requirements comes to
the same. -/
lemma resolveWith_same_iff {saved : Manifest V} (resolves : (m.resolveWith index).2 = []) :
    ((saved.resolveWith index).2 = [] ∧ (saved.resolveWith index).1 = (m.resolveWith index).1) ↔
      ∀ (name : String) (world : World V), index.worlds[name]? = some world →
        outcome world (saved.getVersionReq name index) = outcome world (m.getVersionReq name index) := by
  have before := Manifest.resolveWith_snd_eq_nil_iff.mp resolves
  rw [Manifest.resolveWith_snd_eq_nil_iff, Manifest.resolveWith_fst_eq_iff]
  constructor
  · rintro ⟨resolves', same⟩ name world here
    rw [outcome_ok_iff.mpr ⟨before name world here, rfl⟩]
    exact outcome_ok_iff.mpr ⟨resolves' name world here, same name world here⟩
  · intro same
    have each : ∀ (name : String) (world : World V), index.worlds[name]? = some world →
        saved.failed index name world = none ∧
          saved.resolved index name world = m.resolved index name world := by
      intro name world here
      rw [← outcome_ok_iff, same name world here]
      exact outcome_ok_iff.mpr ⟨before name world here, rfl⟩
    exact ⟨fun name world here => (each name world here).1, fun name world here => (each name world here).2⟩

end

/-! ## What the options keep -/

section

variable {world : World V}

lemma latestSupported_mem_validOptions :
    .latestSupported ∈ validOptionsForApworld world ↔ world.getLatestSupportedRelease.isSome := by
  rw [validOptionsForApworld, World.getLatestSupportedRelease, List.find?_isSome]
  constructor
  · intro mem
    obtain ⟨release, there, same⟩ := List.mem_map.mp ((List.mem_cons.mp mem).resolve_left (by simp))
    refine ⟨release, there, ?_⟩
    by_contra unsupported
    rw [if_neg unsupported] at same
    cases same
  · rintro ⟨release, there, supported⟩
    exact List.mem_cons_of_mem _ (List.mem_map.mpr ⟨release, there, if_pos supported⟩)

lemma specific_mem_validOptions {version : V} :
    .specific version ∈ validOptionsForApworld world ↔
      ∃ origin, world.versions[version]? = some origin ∧ origin.isSupported = false := by
  rw [validOptionsForApworld]
  constructor
  · intro mem
    obtain ⟨release, there, same⟩ := List.mem_map.mp ((List.mem_cons.mp mem).resolve_left (by simp))
    split at same
    · cases same
    · rename_i unsupported
      cases same
      exact ⟨release.2, Std.ExtTreeMap.mem_toList_iff_getElem?_eq_some.mp there, by simpa using unsupported⟩
  · rintro ⟨origin, here, unsupported⟩
    refine List.mem_cons_of_mem _ (List.mem_map.mpr ⟨(version, origin), ?_, if_neg (by simp [unsupported])⟩)
    exact Std.ExtTreeMap.mem_toList_iff_getElem?_eq_some.mpr here

lemma disabled_notMem_validOptions : .disabled ∉ validOptionsForApworld world := by
  intro mem
  obtain ⟨release, -, same⟩ := List.mem_map.mp ((List.mem_cons.mp mem).resolve_left (by simp))
  split at same <;> cases same

/-- Releases stand for one version where the one that is found does. -/
lemma found_eq_iff {release release' : Option (V × WorldOrigin)} {actual actual' : VersionReq V} {r : World V × V}
    (ok : world.found actual release = .ok r) :
    world.found actual' release' = world.found actual release ↔ release'.map Prod.fst = release.map Prod.fst := by
  cases release with
  | none => cases ok
  | some p =>
    cases release' with
    | none => simp [World.found]
    | some p' => simp [World.found]

namespace ManifestFormBuilder

/-- The row of a world stands for what the manifest asks of it: the world is not switched off by its
default alone, and a release that is pinned is offered as such or is the one that the default version
of the world leads to anyway. -/
def RowKeeps (self : ManifestFormBuilder V) (name : String) (world : World V) : Prop :=
  self.manifest.isEnabled name = true →
    self.manifest.getVersionReq name self.index ≠ .disabled ∧
      ∀ version : V, self.manifest.getVersionReq name self.index = .specific version →
        (∃ origin, world.versions[version]? = some origin ∧ origin.isSupported = false) ∨
          world.defaultRelease.map Prod.fst = (world.pinned version <|> world.getLatestRelease).map Prod.fst

variable {builder : ManifestFormBuilder V} {name : String}

lemma outcome_kept_iff {r : Option (World V × V)}
    (ok : outcome world (builder.manifest.getVersionReq name builder.index) = .ok r) :
    outcome world (builder.kept name world) = outcome world (builder.manifest.getVersionReq name builder.index) ↔
      builder.RowKeeps name world := by
  unfold kept shown RowKeeps
  cases enabled : builder.manifest.isEnabled name with
  | false =>
    rw [Manifest.getVersionReq_of_not_enabled enabled]
    simp
  | true =>
    rw [if_pos rfl]
    cases req : builder.manifest.getVersionReq name builder.index with
    | disabled =>
      rw [if_neg disabled_notMem_validOptions]
      cases found : Manifest.resolveWorldVersion world .latest <;> simp [outcome, found, Except.map]
    | latest => simp
    | latestSupported =>
      rw [req] at ok
      have released : world.getLatestSupportedRelease.isSome := by
        cases release : world.getLatestSupportedRelease with
        | some _ => rfl
        | none =>
          rw [outcome, if_neg (by simp), Manifest.resolveWorldVersion, release] at ok
          cases ok
      rw [if_pos (latestSupported_mem_validOptions.mpr released)]
      simp
    | specific version =>
      by_cases offered : .specific version ∈ validOptionsForApworld world
      · rw [if_pos offered]
        have unsupported := specific_mem_validOptions.mp offered
        simpa using .inl unsupported
      · rw [if_neg offered]
        have unoffered := specific_mem_validOptions.not.mp offered
        rw [req] at ok
        obtain ⟨found, settled⟩ : ∃ found, Manifest.resolveWorldVersion world (.specific version) = .ok found := by
          rw [outcome, if_neg (by simp)] at ok
          cases found : Manifest.resolveWorldVersion world (.specific version) with
          | error e =>
            rw [found] at ok
            cases ok
          | ok v => exact ⟨v, rfl⟩
        have same : outcome world .latest = outcome world (.specific version) ↔
            Manifest.resolveWorldVersion world .latest = Manifest.resolveWorldVersion world (.specific version) := by
          rw [outcome, outcome, if_neg (by simp), if_neg (by simp), settled]
          cases Manifest.resolveWorldVersion world .latest <;> simp [Except.map]
        rw [same]
        refine (found_eq_iff settled).trans ⟨fun versions => ?_, fun keeps => ?_⟩
        · intro _
          refine ⟨by simp, ?_⟩
          intro _ same
          cases same
          exact .inr versions
        · exact ((keeps rfl).2 version rfl).resolve_left unoffered

end ManifestFormBuilder

end

/-! ## A concrete room -/

/-- A number of a version, which has no leading zero. -/
def readNumber (digits : List Char) : Option ℕ :=
  if Nat.toDigits 10 (Nat.ofDigitChars 10 digits 0) = digits then some (Nat.ofDigitChars 10 digits 0) else none

/-- The reader of versions without a pre-release or build part. -/
def readPlain (text : String) : Except String PlainVersion :=
  match text.toList.splitOn '.' with
  | [major, minor, patch] =>
    match readNumber major, readNumber minor, readNumber patch with
    | some major, some minor, some patch => .ok ⟨major, minor, patch⟩
    | _, _, _ => .error "unexpected character while parsing a version number"
  | _ => .error "unexpected end of input while parsing a version number"

lemma readNumber_toDigits (n : ℕ) : readNumber (Nat.toDigits 10 n) = some n := by
  have back : Nat.ofDigitChars 10 (Nat.toDigits 10 n) 0 = n := Nat.ofDigitChars_toDigits (by decide) (by decide)
  rw [readNumber, back, if_pos rfl]

lemma head_of_readNumber {digits : List Char} {n : ℕ} (read : readNumber digits = some n) :
    digits.head?.any Char.isDigit = true := by
  unfold readNumber at read
  split at read
  · rename_i same
    rw [← same]
    cases written : Nat.toDigits 10 (Nat.ofDigitChars 10 digits 0) with
    | nil => exact (Nat.toDigits_ne_nil written).elim
    | cons c rest =>
      have mem : c ∈ Nat.toDigits 10 (Nat.ofDigitChars 10 digits 0) := written ▸ List.mem_cons_self
      exact Nat.isDigit_of_mem_toDigits (by decide) (by decide) mem
  · cases read

lemma toList_plain (v : PlainVersion) :
    (toString v).toList =
      ['.'].intercalate [Nat.toDigits 10 v.major, Nat.toDigits 10 v.minor, Nat.toDigits 10 v.patch] := by
  have number : ∀ n : ℕ, (toString n).toList = Nat.toDigits 10 n := fun n => Nat.toList_repr
  have text : toString v = toString v.major ++ "." ++ toString v.minor ++ "." ++ toString v.patch := rfl
  rw [text]
  simp [List.intercalate]

lemma readPlain_reads : ReadsVersions readPlain where
  parse_toString v := by
    have noDot : ∀ n : ℕ, '.' ∉ Nat.toDigits 10 n := by
      intro n mem
      exact absurd (Nat.isDigit_of_mem_toDigits (by decide) (by decide) mem) (by decide)
    have pieces : (toString v).toList.splitOn '.' =
        [Nat.toDigits 10 v.major, Nat.toDigits 10 v.minor, Nat.toDigits 10 v.patch] := by
      rw [toList_plain, List.splitOn_intercalate] <;> simp [noDot]
    simp only [readPlain, pieces, readNumber_toDigits]
  starts_with_digit s v read := by
    unfold readPlain at read
    split at read
    · rename_i major minor patch pieces
      split at read
      · rename_i number _ _
        have text : ['.'].intercalate (s.toList.splitOn '.') = s.toList := List.intercalate_splitOn '.'
        rw [pieces] at text
        have digit := head_of_readNumber number
        cases major with
        | nil => cases digit
        | cons c rest =>
          rw [← text]
          exact digit
      · cases read
    · cases read

/-- An index whose only world comes with Archipelago and has a release of its own, 2.0.0. -/
def coreWorld : IndexSource PlainVersion :=
  plainSource [("world", { plainWorld "World" [(plain 2 0 0, .default)] with supported := true })]

/-- The manifest of a room that pins the world. -/
def pins (version : PlainVersion) : Manifest PlainVersion :=
  Manifest.new.addVersionReq "world" (.specific version)

/-- The form of that room, as nobody touched it. -/
def pinsForm (version : PlainVersion) (index : Index PlainVersion) : ManifestForm :=
  ManifestFormBuilder.untouched ⟨index, pins version⟩

/-! ## Saving an untouched form -/

/-- Saving a room's form untouched keeps what its manifest resolves to exactly when each row stands for
what the manifest asks. -/
theorem untouchedForm_keeps_iff [ToString V] (parseVersion : String → Except String V)
    (reads : ReadsVersions parseVersion) (index : Index V) (m : Manifest V) (resolves : (m.resolveWith index).2 = []) :
    (∃ saved, manifestFromForm parseVersion (ManifestFormBuilder.untouched ⟨index, m⟩) index = .ok saved ∧
        (saved.resolveWith index).1 = (m.resolveWith index).1) ↔
      ∀ (name : String) (world : World V), index.worlds[name]? = some world →
        ManifestFormBuilder.RowKeeps ⟨index, m⟩ name world := by
  obtain ⟨saved, asks, saves⟩ := ManifestFormBuilder.manifestFromForm_untouched reads ⟨index, m⟩
  have same : (∃ m', manifestFromForm parseVersion (ManifestFormBuilder.untouched ⟨index, m⟩) index = .ok m' ∧
      (m'.resolveWith index).1 = (m.resolveWith index).1) ↔
        (saved.resolveWith index).2 = [] ∧ (saved.resolveWith index).1 = (m.resolveWith index).1 := by
    constructor
    · rintro ⟨m', made, same⟩
      obtain ⟨rfl, resolves'⟩ := (saves m').mp made
      exact ⟨resolves', same⟩
    · rintro ⟨resolves', same⟩
      exact ⟨saved, (saves saved).mpr ⟨rfl, resolves'⟩, same⟩
  rw [same, resolveWith_same_iff resolves]
  refine forall_congr' fun name => forall_congr' fun world => forall_congr' fun here => ?_
  rw [asks name world here]
  have before := Manifest.resolveWith_snd_eq_nil_iff.mp resolves name world here
  exact ManifestFormBuilder.outcome_kept_iff (outcome_ok_iff.mpr ⟨before, rfl⟩)

/-- A pin of the release that is not a core one is kept. -/
theorem untouchedForm_keeps_release :
    ∃ index, coreWorld.viewForBase (plain 0 6 7) = .ok index ∧
      ∃ saved, manifestFromForm readPlain (pinsForm (plain 2 0 0) index) index = .ok saved ∧
        (saved.resolveWith index).1 = ((pins (plain 2 0 0)).resolveWith index).1 := by
  have run : (coreWorld.viewForBase (plain 0 6 7)).toOption.any (fun index =>
      ((pins (plain 2 0 0)).resolveWith index).2 = [] ∧ index.worlds.toList.all fun p =>
        p.1 = "world" ∧ p.2.versions[plain 2 0 0]? = some .default) = true := by
    decide
  obtain ⟨index, view, holds⟩ := exists_ok_of_any run
  obtain ⟨resolves, only⟩ := of_decide_eq_true holds
  refine ⟨index, view, (untouchedForm_keeps_iff readPlain readPlain_reads index (pins (plain 2 0 0)) resolves).mpr ?_⟩
  intro name world here _
  obtain ⟨rfl, release⟩ := of_decide_eq_true (List.all_eq_true.mp only (name, world)
    (Std.ExtTreeMap.mem_toList_iff_getElem?_eq_some.mpr here))
  have req : (pins (plain 2 0 0)).getVersionReq "world" index = .specific (plain 2 0 0) := by
    simp [pins, Manifest.getVersionReq, Manifest.addVersionReq]
  refine ⟨by simp [req], ?_⟩
  intro version same
  cases req.symm.trans same
  exact .inl ⟨.default, release, rfl⟩

/-- A pin of the core release, 0.6.7, is shown as the latest version, and saving the form moves the room
to 2.0.0. -/
theorem untouchedForm_moves_core_release :
    ∃ index, coreWorld.viewForBase (plain 0 6 7) = .ok index ∧ ((pins (plain 0 6 7)).resolveWith index).2 = [] ∧
      ¬ ∃ saved, manifestFromForm readPlain (pinsForm (plain 0 6 7) index) index = .ok saved ∧
        (saved.resolveWith index).1 = ((pins (plain 0 6 7)).resolveWith index).1 := by
  have run : (coreWorld.viewForBase (plain 0 6 7)).toOption.any (fun index =>
      ((pins (plain 0 6 7)).resolveWith index).2 = [] ∧
        (manifestFromForm readPlain (pinsForm (plain 0 6 7) index) index).toOption.all fun saved =>
          (saved.resolveWith index).1["world"]?.map (·.2) = some (plain 2 0 0) ∧
            ((pins (plain 0 6 7)).resolveWith index).1["world"]?.map (·.2) = some (plain 0 6 7)) = true := by
    decide
  obtain ⟨index, view, holds⟩ := exists_ok_of_any run
  obtain ⟨resolves, moved⟩ := of_decide_eq_true holds
  refine ⟨index, view, resolves, ?_⟩
  rintro ⟨saved, made, same⟩
  rw [made] at moved
  obtain ⟨after, before⟩ := of_decide_eq_true moved
  rw [same, before] at after
  revert after
  decide

end ArchipelagoXL.Lobby
