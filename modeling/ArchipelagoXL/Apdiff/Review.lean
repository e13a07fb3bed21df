import ArchipelagoXL.Apwm.Changes
import ArchipelagoXL.Apdiff.FileTree
import ArchipelagoXL.Apdiff.Submissions

/-!
# The review of added versions

A page shows for every world of a submission how its added versions differ from an earlier one
(`process_world` in `apdiff-viewer/src/main.rs`). The versions that are stored are listed for the reader to
choose from, without the added ones; if there is no choice, the greatest stored version below the latest
added one is taken, and it may be an added one itself.

The page is what it should be exactly if that version is not an added one, but for texts of which only
mixed line endings changed (`process_world_reviews_iff`).

Versions and their texts are `semver::Version`, of which the model uses what `Semver` says. What a
submission has in the way of annotations is a parameter.
-/

namespace ArchipelagoXL.Apdiff

open Apwm

/-- Rust `BASE_MANUAL_PREFIX`. -/
def baseManualPrefix : String := "base:"

/-- What is used of `semver::Version`: a version can be read back from its text, and neither the empty text
nor one that begins with the mark of a base version is one. -/
structure Semver {V : Type} [ToString V] (parse : String → Option V) : Prop where
  parse_toString : ∀ v : V, parse (toString v) = some v
  parse_empty : parse "" = none
  parse_base : ∀ text, parse (baseManualPrefix ++ text) = none

section

variable {V N L B : Type} [LinearOrder V] [ToString V] (parse : String → Option V)

/-! ## Sources -/

/-- Where the files of versions come from (Rust `ArtifactSource`). -/
structure ArtifactSource (V N : Type) where
  fetchTree : String → String → Except String FileTree
  annotations : String → String → Except String (BTreeMap String (List N))
  listVersions : String → Except String (List V)

/-- By version and then by hash. -/
def priorLe (a b : V × String) : Prop := a.1 < b.1 ∨ a.1 = b.1 ∧ a.2 ≤ b.2

instance : DecidableRel (priorLe (V := V)) := fun a b =>
  inferInstanceAs (Decidable (a.1 < b.1 ∨ a.1 = b.1 ∧ a.2 ≤ b.2))

/-- Rust `list_prior_versions`. -/
def Viewer.listPriorVersions {T : Type} (s : Viewer B T) (worldName : String) : List (V × String) :=
  let rows := s.artifacts.filter fun row => decide (row.worldName = worldName)
  let parsed := rows.filterMap fun row => (parse row.version).map fun version => (version, row.sha256)
  (parsed.insertionSort priorLe).destutter (· ≠ ·)

/-- A stored submission as a source, with the rows that the database takes. -/
def SubmissionSource.artifactSource (self : SubmissionSource) (extract : B → Except String FileTree)
    (annotations : String → String → Except String (BTreeMap String (List N)))
    (s : Viewer B FileTree) (pick : String → String → ℕ) : ArtifactSource V N where
  fetchTree world version := (self.fetchTree extract s world version (pick world version)).1
  annotations := annotations
  listVersions world := .ok ((s.listPriorVersions parse world).map Prod.fst)

/-- Rust `BASE_MANUAL`. -/
def baseManual : String := "manual_ultimatemarvelvscapcom3_manualteam"

/-! ## Pages -/

/-- Rust `FromVersion`. -/
structure FromVersion where
  label : String
  value : String
deriving DecidableEq

/-- Rust `VersionDiff`. -/
structure VersionDiff (L : Type) where
  versionRange : String
  versionId : String
  files : List (FileDiff L)

/-- Rust `ApworldDiff`. -/
structure ApworldDiff (L : Type) where
  apworldName : String
  worldName : String
  fromVersions : List FromVersion
  selectedFrom : Option String
  versions : List (VersionDiff L)

/-- Whether a version is supported, and so not reviewed. -/
def isSupported (wc : WorldChanges V) (v : V) : Bool := wc.checksums[v]? == some .supported

/-- The added versions that are reviewed. -/
def reviewed (wc : WorldChanges V) : List V := wc.addedVersions.filter fun v => !isSupported wc v

/-- Rust `find_previous_version`. -/
def findPreviousVersion (current : String) (indexed : List V) : Option String :=
  (parse current).bind fun current => (indexed.filter (· < current)).max?.map toString

/-- Whether a world has the base manual to be compared with. -/
def isManual (apworldName : String) : Bool :=
  "manual_".toList.isPrefixOf (apworldName.toList.map Char.toLower) && apworldName != baseManual

/-- The version that the added ones are compared with, before it is fetched. -/
def selectFrom (fromOverride : Option String) (latestAdded : String) (indexed baseIndexed : List V) :
    Option String :=
  match fromOverride with
  | some v => if v = "" then none else some v
  | none =>
    (findPreviousVersion parse latestAdded indexed).or
      (baseIndexed.getLast?.map fun v => baseManualPrefix ++ toString v)

/-- What stands behind the mark of a base version. -/
def stripBase (v : String) : Option String :=
  if baseManualPrefix.toList.isPrefixOf v.toList then
    some (String.ofList (v.toList.drop baseManualPrefix.length))
  else none

/-- The version and its tree; a version that can't be fetched is dropped. -/
def fetchFrom (source : ArtifactSource V N) (apworldName v : String) : Option (String × FileTree) :=
  match stripBase v with
  | some baseVersion =>
    (source.fetchTree baseManual baseVersion).toOption.map fun tree => (v, rekeyTree tree apworldName)
  | none => (source.fetchTree apworldName v).toOption.map fun tree => (v, tree)

/-- The trees of the added versions with their annotations. -/
def fetchAdded (source : ArtifactSource V N) (apworldName : String) :
    List V → Except String (List (String × FileTree × BTreeMap String (List N)))
  | [] => .ok []
  | v :: versions =>
    match source.fetchTree apworldName (toString v) with
    | .error e => .error e
    | .ok tree =>
      match source.annotations apworldName (toString v) with
      | .error e => .error e
      | .ok notes =>
        (fetchAdded source apworldName versions).map fun fetched => (toString v, tree, notes) :: fetched

variable (differ : Differ N L)

/-- Rust `process_world`. -/
def processWorld (source : ArtifactSource V N) (apworldName : String) (worldChanges : WorldChanges V)
    (fromOverride : Option String) : Except String (ApworldDiff L) :=
  let addedSorted := (reviewed worldChanges).insertionSort (· ≤ ·)
  let indexed := (source.listVersions apworldName).toOption.getD []
  match fetchAdded source apworldName addedSorted with
  | .error e => .error e
  | .ok toTrees =>
    let baseIndexed :=
      if isManual apworldName then (source.listVersions baseManual).toOption.getD [] else []
    let fromVersions :=
      (indexed.filter fun v => !worldChanges.addedVersions.contains v).map
        (fun v => ⟨toString v, toString v⟩) ++
      baseIndexed.map fun v => ⟨"base manual " ++ toString v, baseManualPrefix ++ toString v⟩
    let latestAdded := (addedSorted.getLast?.map toString).getD ""
    let fetched := (selectFrom parse fromOverride latestAdded indexed baseIndexed).bind
      (fetchFrom source apworldName)
    let oldTree := (fetched.map Prod.snd).getD ∅
    .ok
      { apworldName := apworldName
        worldName := worldChanges.worldName
        fromVersions := fromVersions
        selectedFrom := fetched.map Prod.fst
        versions := toTrees.map fun added =>
          { versionRange := (fetched.map Prod.fst).getD "" ++ "..." ++ added.1
            versionId := added.1
            files := computeFileTreeDiff differ oldTree added.2.1 added.2.2 } }

/-- Rust `render_diffs`, less what the page is named by. -/
def renderDiffs (source : ArtifactSource V N) (changes : Changes V) (params : String → Option String) :
    Except String (List (ApworldDiff L)) :=
  (changes.worlds.toList.filter fun world => world.2.addedVersions.any fun v => !isSupported world.2 v).mapM
    fun world => processWorld parse differ source world.1 world.2 (params (world.1 ++ "_from"))

/-! ## What a page should be -/

/-- A version that is stored for a world. -/
def Viewer.Indexed {T : Type} (s : Viewer B T) (world : String) (v : V) : Prop :=
  ∃ row ∈ s.artifacts, row.worldName = world ∧ parse row.version = some v

/-- The stored versions below the latest added one. -/
def Viewer.Earlier {T : Type} (s : Viewer B T) (world : String) (worldChanges : WorldChanges V) : Set V :=
  {v | s.Indexed parse world v ∧ ∃ latest, IsGreatest {w | w ∈ reviewed worldChanges} latest ∧ v < latest}

/-- What the added versions are to be compared with: the greatest earlier version that is not an added one,
else the latest base manual, else nothing. -/
inductive Viewer.DefaultFrom {T : Type} (s : Viewer B T) (world : String) (worldChanges : WorldChanges V)
    (added : List V) : Option String → Prop where
  | earlier {v : V} (greatest : IsGreatest {w | w ∈ s.Earlier parse world worldChanges ∧ w ∉ added} v) :
    DefaultFrom s world worldChanges added (some (toString v))
  | base {v : V} (noneEarlier : ∀ w ∈ s.Earlier parse world worldChanges, w ∈ added)
    (manual : isManual world) (greatest : IsGreatest {w | s.Indexed parse baseManual w} v) :
    DefaultFrom s world worldChanges added (some (baseManualPrefix ++ toString v))
  | nothing (noneEarlier : ∀ w ∈ s.Earlier parse world worldChanges, w ∈ added)
    (noBase : isManual world → ∀ w, ¬ s.Indexed parse baseManual w) :
    DefaultFrom s world worldChanges added none

/-- The files of the version that is compared with, if there is one that can be fetched. -/
def fromTree (source : ArtifactSource V N) (world : String) (choice : Option String) : FileTree :=
  ((choice.bind (fetchFrom source world)).map Prod.snd).getD ∅

/-- A page that compares all reviewed versions with the chosen one and shows every file that changed. -/
structure ApworldDiff.Compares (page : ApworldDiff L) (source : ArtifactSource V N) (world : String)
    (worldChanges : WorldChanges V) (choice : Option String) : Prop where
  selected : page.selectedFrom = (choice.bind (fetchFrom source world)).map Prod.fst
  all : page.versions.map VersionDiff.versionId = ((reviewed worldChanges).insertionSort (· ≤ ·)).map toString
  complete : ∀ version ∈ page.versions, ∃ tree, source.fetchTree world version.versionId = .ok tree ∧
    ∀ path : PathBuf, path.text ≠ devNull → (fromTree source world choice)[path]? ≠ tree[path]? →
      ∃ d ∈ version.files, d.Shows path.text (fromTree source world choice)[path]? tree[path]?

/-- No text changed only in its mixed line endings between the chosen version and a reviewed one. -/
def NoMixedChange (source : ArtifactSource V N) (world : String) (worldChanges : WorldChanges V)
    (choice : Option String) : Prop :=
  ∀ v ∈ reviewed worldChanges, ∀ tree, source.fetchTree world (toString v) = .ok tree →
    ∀ path : PathBuf, path.text ≠ devNull →
      ¬ OnlyMixedEndings (fromTree source world choice)[path]? tree[path]?

/-! ## The stored versions -/

omit [ToString V] in
lemma priorLe_iff {a b : V × String} : priorLe a b ↔ toLex a ≤ toLex b :=
  Prod.Lex.toLex_le_toLex.symm

instance : Std.Total (priorLe (V := V)) :=
  ⟨fun a b => by
    rw [priorLe_iff, priorLe_iff]
    exact le_total (toLex a) (toLex b)⟩

instance : IsTrans (V × String) priorLe :=
  ⟨fun _ _ _ hab hbc => priorLe_iff.mpr ((priorLe_iff.mp hab).trans (priorLe_iff.mp hbc))⟩

instance : Std.Antisymm (priorLe (V := V)) :=
  ⟨fun _ _ hab hba => toLex.injective ((priorLe_iff.mp hab).antisymm (priorLe_iff.mp hba))⟩

variable {parse differ} {T : Type} {s : Viewer B T} {world : String} {worldChanges : WorldChanges V}
  {added : List V}

omit [ToString V] in
/-- Exactly the stored versions are listed. -/
lemma Viewer.mem_listPriorVersions {v : V} :
    v ∈ (s.listPriorVersions parse world).map Prod.fst ↔ s.Indexed parse world v := by
  rw [Viewer.listPriorVersions, (List.pairwise_insertionSort priorLe _).destutter_eq_dedup]
  constructor
  · intro mem
    obtain ⟨⟨_, sha⟩, listed, rfl⟩ := List.mem_map.mp mem
    obtain ⟨row, hrow, e⟩ := List.mem_filterMap.mp ((List.mem_insertionSort _).mp (List.mem_dedup.mp listed))
    obtain ⟨version, parsed, e⟩ := Option.map_eq_some_iff.mp e
    obtain ⟨rfl, -⟩ := Prod.mk.inj e
    have ⟨stored, named⟩ := List.mem_filter.mp hrow
    exact ⟨row, stored, of_decide_eq_true named, parsed⟩
  · rintro ⟨row, stored, named, parsed⟩
    refine List.mem_map.mpr ⟨(v, row.sha256), List.mem_dedup.mpr ((List.mem_insertionSort _).mpr ?_), rfl⟩
    refine List.mem_filterMap.mpr ⟨row, List.mem_filter.mpr ⟨stored, decide_eq_true named⟩, ?_⟩
    rw [parsed, Option.map_some]

omit [ToString V] in
/-- They are listed in ascending order. -/
lemma Viewer.listPriorVersions_sorted (parse : String → Option V) (s : Viewer B T) (world : String) :
    ((s.listPriorVersions parse world).map Prod.fst).Pairwise (· ≤ ·) := by
  have sorted := (List.pairwise_insertionSort priorLe _).sublist
    (List.destutter_sublist (R := (· ≠ ·)) (((s.artifacts.filter fun row =>
      decide (row.worldName = world)).filterMap fun row => (parse row.version).map fun version =>
        (version, row.sha256)).insertionSort priorLe))
  refine List.pairwise_map.mpr (sorted.imp ?_)
  rintro a b (lt | ⟨e, -⟩)
  · exact lt.le
  · exact e.le

omit [ToString V] in
/-- The last of an ascending list is its greatest. -/
lemma getLast?_isGreatest {versions : List V} (sorted : versions.Pairwise (· ≤ ·)) {v : V}
    (last : versions.getLast? = some v) : IsGreatest {w | w ∈ versions} v := by
  obtain ⟨before, rfl⟩ := List.getLast?_eq_some_iff.mp last
  refine ⟨List.mem_append_right _ (List.mem_singleton.mpr rfl), fun w mem => ?_⟩
  rcases List.mem_append.mp mem with old | new
  · exact (List.pairwise_append.mp sorted).2.2 w old v (List.mem_singleton.mpr rfl)
  · exact (List.mem_singleton.mp new).le

/-- The version that is found is the greatest below the current one. -/
lemma findPreviousVersion_cases {current : String} {c : V} (parsed : parse current = some c)
    (indexed : List V) :
    (∃ v, IsGreatest {w | w ∈ indexed ∧ w < c} v ∧ findPreviousVersion parse current indexed = some (toString v)) ∨
      (∀ w ∈ indexed, ¬ w < c) ∧ findPreviousVersion parse current indexed = none := by
  rw [findPreviousVersion, parsed, Option.bind_some]
  cases found : (indexed.filter (· < c)).max? with
  | none =>
    refine .inr ⟨fun w mem lt => ?_, rfl⟩
    have noneBelow := List.max?_eq_none_iff.mp found
    exact absurd (List.mem_filter.mpr ⟨mem, decide_eq_true lt⟩) (noneBelow ▸ List.not_mem_nil)
  | some v =>
    have ⟨mem, greatest⟩ := List.max?_eq_some_iff.mp found
    have ⟨among, below⟩ := List.mem_filter.mp mem
    refine .inl ⟨v, ⟨⟨among, of_decide_eq_true below⟩, ?_⟩, rfl⟩
    rintro w ⟨hw, lt⟩
    exact greatest w (List.mem_filter.mpr ⟨hw, decide_eq_true lt⟩)

/-! ## The default choice -/

omit [ToString V] in
lemma mem_addedSorted {v : V} : v ∈ (reviewed worldChanges).insertionSort (· ≤ ·) ↔ v ∈ reviewed worldChanges :=
  List.mem_insertionSort _

omit [ToString V] in
lemma latest_isGreatest {latest : V}
    (last : ((reviewed worldChanges).insertionSort (· ≤ ·)).getLast? = some latest) :
    IsGreatest {w | w ∈ reviewed worldChanges} latest := by
  have greatest := getLast?_isGreatest (List.pairwise_insertionSort (· ≤ ·) _) last
  exact ⟨mem_addedSorted.mp greatest.1, fun w mem => greatest.2 (mem_addedSorted.mpr mem)⟩

/-- If nothing is earlier, the latest base manual is the right choice, or nothing. -/
lemma Viewer.base_default (noEarlier : ∀ w ∈ s.Earlier parse world worldChanges, w ∈ added) :
    s.DefaultFrom parse world worldChanges added
      ((if isManual world then (s.listPriorVersions parse baseManual).map Prod.fst else []).getLast?.map
        fun v => baseManualPrefix ++ toString v) := by
  split
  case isFalse notManual => exact .nothing noEarlier fun manual => absurd manual notManual
  case isTrue manual =>
    cases last : ((s.listPriorVersions parse baseManual).map Prod.fst).getLast? with
    | none =>
      have empty := List.getLast?_eq_none_iff.mp last
      refine .nothing noEarlier fun _ w indexed => ?_
      exact absurd (Viewer.mem_listPriorVersions.mpr indexed) (empty ▸ List.not_mem_nil)
    | some v =>
      have greatest := getLast?_isGreatest (s.listPriorVersions_sorted parse baseManual) last
      refine .base noEarlier manual ⟨Viewer.mem_listPriorVersions.mp greatest.1, fun w indexed => ?_⟩
      exact greatest.2 (Viewer.mem_listPriorVersions.mpr indexed)

variable (parse s world worldChanges) in
/-- What is chosen if the reader chooses nothing. -/
def Viewer.defaultFrom : Option String :=
  selectFrom parse none ((((reviewed worldChanges).insertionSort (· ≤ ·)).getLast?.map toString).getD "")
    ((s.listPriorVersions parse world).map Prod.fst)
    (if isManual world then (s.listPriorVersions parse baseManual).map Prod.fst else [])

/-- It would be the right choice if no version were an added one. -/
lemma Viewer.defaultFrom_spec (semver : Semver parse) :
    s.DefaultFrom parse world worldChanges [] (s.defaultFrom parse world worldChanges) := by
  rw [Viewer.defaultFrom, selectFrom]
  cases last : ((reviewed worldChanges).insertionSort (· ≤ ·)).getLast? with
  | none =>
    have empty := List.getLast?_eq_none_iff.mp last
    rw [Option.map_none, Option.getD_none, findPreviousVersion, semver.parse_empty, Option.bind_none,
      Option.none_or]
    apply Viewer.base_default
    rintro w ⟨-, latest, greatest, -⟩
    exact absurd (mem_addedSorted.mpr greatest.1) (empty ▸ List.not_mem_nil)
  | some latest =>
    have greatestAdded := latest_isGreatest last
    rw [Option.map_some, Option.getD_some]
    rcases findPreviousVersion_cases (semver.parse_toString latest) ((s.listPriorVersions parse world).map
      Prod.fst) with ⟨v, greatest, found⟩ | ⟨noneBelow, found⟩
    · rw [found, Option.some_or]
      refine .earlier ⟨⟨⟨Viewer.mem_listPriorVersions.mp greatest.1.1, latest, greatestAdded, greatest.1.2⟩,
        List.not_mem_nil⟩, ?_⟩
      rintro w ⟨⟨indexed, latest', greatest', lt⟩, -⟩
      obtain rfl := greatest'.unique greatestAdded
      exact greatest.2 ⟨Viewer.mem_listPriorVersions.mpr indexed, lt⟩
    · rw [found, Option.none_or]
      apply Viewer.base_default
      rintro w ⟨indexed, latest', greatest', lt⟩
      obtain rfl := greatest'.unique greatestAdded
      exact absurd lt (noneBelow w (Viewer.mem_listPriorVersions.mpr indexed))

/-- There is one right choice. -/
lemma Viewer.DefaultFrom.unique {a b : Option String} (ha : s.DefaultFrom parse world worldChanges added a)
    (hb : s.DefaultFrom parse world worldChanges added b) : a = b := by
  cases ha with
  | earlier greatest =>
    cases hb with
    | earlier greatest' => rw [greatest.unique greatest']
    | base noEarlier => exact absurd (noEarlier _ greatest.1.1) greatest.1.2
    | nothing noEarlier => exact absurd (noEarlier _ greatest.1.1) greatest.1.2
  | base noEarlier manual greatest =>
    cases hb with
    | earlier greatest' => exact absurd (noEarlier _ greatest'.1.1) greatest'.1.2
    | base _ _ greatest' => rw [greatest.unique greatest']
    | nothing _ noBase => exact absurd greatest.1 (noBase manual _)
  | nothing noEarlier noBase =>
    cases hb with
    | earlier greatest' => exact absurd (noEarlier _ greatest'.1.1) greatest'.1.2
    | base _ manual greatest' => exact absurd greatest'.1 (noBase manual _)
    | nothing => rfl

/-- The right choice stays right if added versions are left out that it is not. -/
lemma Viewer.DefaultFrom.leaveOut {choice : Option String} (h : s.DefaultFrom parse world worldChanges [] choice)
    (other : ∀ v, IsGreatest (s.Earlier parse world worldChanges) v → v ∉ added) :
    s.DefaultFrom parse world worldChanges added choice := by
  cases h with
  | @earlier v greatest =>
    have greatestOfAll : IsGreatest (s.Earlier parse world worldChanges) v :=
      ⟨greatest.1.1, fun w earlier => greatest.2 ⟨earlier, List.not_mem_nil⟩⟩
    exact .earlier ⟨⟨greatest.1.1, other v greatestOfAll⟩, fun w hw => greatestOfAll.2 hw.1⟩
  | base noEarlier manual greatest =>
    exact .base (fun w earlier => absurd (noEarlier w earlier) List.not_mem_nil) manual greatest
  | nothing noEarlier noBase =>
    exact .nothing (fun w earlier => absurd (noEarlier w earlier) List.not_mem_nil) noBase

/-! ## What is fetched -/

variable {source : ArtifactSource V N} {page : ApworldDiff L} {choice : Option String}

omit [LinearOrder V] in
/-- The text of a version has not the mark of a base version. -/
lemma Semver.stripBase_eq_none (semver : Semver parse) (v : V) : stripBase (toString v) = none := by
  rw [stripBase]
  split
  case isFalse => rfl
  case isTrue marked =>
    obtain ⟨rest, e⟩ := List.isPrefixOf_iff_prefix.mp marked
    have text : toString v = baseManualPrefix ++ String.ofList rest := by
      rw [← String.toList_inj, ← e, String.toList_append, String.toList_ofList]
    have unread := semver.parse_base (String.ofList rest)
    rw [← text, semver.parse_toString v] at unread
    cases unread

omit [LinearOrder V] in
/-- A version can be told from its text. -/
lemma Semver.toString_inj (semver : Semver parse) {v w : V} (e : toString v = toString w) : v = w := by
  have read := semver.parse_toString v
  rw [e, semver.parse_toString w] at read
  exact (Option.some.inj read).symm

omit [LinearOrder V] in
lemma Semver.toString_ne_base (semver : Semver parse) (v w : V) : toString v ≠ baseManualPrefix ++ toString w := by
  intro e
  have read := semver.parse_toString v
  rw [e] at read
  cases (semver.parse_base (toString w)).symm.trans read

omit [LinearOrder V] [ToString V] in
lemma fetchFrom_fst {v : String} {fetched : String × FileTree} (h : fetchFrom source world v = some fetched) :
    fetched.1 = v := by
  rw [fetchFrom] at h
  split at h
  all_goals
    obtain ⟨tree, -, rfl⟩ := Option.map_eq_some_iff.mp h
    rfl

omit [LinearOrder V] in
lemma fetchFrom_version (semver : Semver parse) {v : V} {tree : FileTree}
    (fetched : source.fetchTree world (toString v) = .ok tree) :
    fetchFrom source world (toString v) = some (toString v, tree) := by
  rw [fetchFrom, semver.stripBase_eq_none v]
  simp only
  rw [fetched]
  rfl

/-- The right choice, if it is a version, is not an added one. -/
lemma Viewer.DefaultFrom.not_added (semver : Semver parse) {v : V}
    (h : s.DefaultFrom parse world worldChanges added (some (toString v))) : v ∉ added := by
  generalize e : some (toString v) = choice at h
  cases h with
  | earlier greatest =>
    obtain rfl := semver.toString_inj (Option.some.inj e)
    exact greatest.1.2
  | base => exact absurd (Option.some.inj e) (semver.toString_ne_base _ _)
  | nothing => cases e

omit [LinearOrder V] in
/-- Every added version is fetched, in order. -/
lemma fetchAdded_ok {versions : List V} :
    ∀ {fetched : List (String × FileTree × BTreeMap String (List N))},
      fetchAdded source world versions = .ok fetched →
        fetched.map Prod.fst = versions.map toString ∧
          ∀ added ∈ fetched, source.fetchTree world added.1 = .ok added.2.1 := by
  induction versions with
  | nil =>
    intro fetched h
    obtain rfl : [] = fetched := Except.ok.inj h
    exact ⟨rfl, fun added mem => by cases mem⟩
  | cons v versions ih =>
    intro fetched h
    rw [fetchAdded] at h
    split at h
    case h_1 => cases h
    case h_2 tree ok =>
      split at h
      case h_1 => cases h
      case h_2 notes _ =>
        cases rest : fetchAdded source world versions with
        | error e => simp [rest, Except.map] at h
        | ok others =>
          simp only [rest, Except.map, Except.ok.injEq] at h
          subst h
          have ⟨names, trees⟩ := ih rest
          refine ⟨by rw [List.map_cons, List.map_cons, names], fun added mem => ?_⟩
          rcases List.mem_cons.mp mem with rfl | mem
          · exact ok
          · exact trees added mem

/-! ## What is shown -/

variable {self : SubmissionSource} {extract : B → Except String FileTree}
  {annotations : String → String → Except String (BTreeMap String (List N))} {stored : Viewer B FileTree}
  {pick : String → String → ℕ}

/-- What a page that is shown without a choice of the reader is made of. -/
lemma processWorld_ok
    (shown : processWorld parse differ (self.artifactSource parse extract annotations stored pick) world
      worldChanges none = .ok page) :
    let source := self.artifactSource parse extract annotations stored pick
    let choice := stored.defaultFrom parse world worldChanges
    page.selectedFrom = (choice.bind (fetchFrom source world)).map Prod.fst ∧
      page.versions.map VersionDiff.versionId =
          ((reviewed worldChanges).insertionSort (· ≤ ·)).map toString ∧
        ∀ version ∈ page.versions, ∃ tree notes, source.fetchTree world version.versionId = .ok tree ∧
          version.files = computeFileTreeDiff differ (fromTree source world choice) tree notes := by
  rw [processWorld] at shown
  simp only at shown
  split at shown
  case h_1 => cases shown
  case h_2 fetched ok =>
    obtain rfl := Except.ok.inj shown
    have ⟨names, trees⟩ := fetchAdded_ok ok
    refine ⟨rfl, List.map_map.trans names, fun version mem => ?_⟩
    obtain ⟨added, hadded, rfl⟩ := List.mem_map.mp mem
    exact ⟨added.2.1, added.2.2, trees added hadded, rfl⟩

/-- The page compares with the default choice, and shows all but mixed line endings. -/
lemma compares_default_iff
    (shown : processWorld parse differ (self.artifactSource parse extract annotations stored pick) world
      worldChanges none = .ok page) :
    let source := self.artifactSource parse extract annotations stored pick
    let choice := stored.defaultFrom parse world worldChanges
    page.Compares source world worldChanges choice ↔ NoMixedChange source world worldChanges choice := by
  intro source choice
  have ⟨selected, all, files⟩ := processWorld_ok shown
  constructor
  · intro compares v hv tree fetched path named only
    have listed : toString v ∈ page.versions.map VersionDiff.versionId := by
      rw [all]
      exact List.mem_map.mpr ⟨v, mem_addedSorted.mpr hv, rfl⟩
    obtain ⟨version, mem, id⟩ := List.mem_map.mp listed
    obtain ⟨tree', notes, fetched', e⟩ := files version mem
    obtain ⟨tree'', fetched'', complete⟩ := compares.complete version mem
    rw [id, fetched] at fetched' fetched''
    obtain rfl := Except.ok.inj fetched'
    obtain rfl := Except.ok.inj fetched''
    have shows := complete path named only.ne
    rw [e] at shows
    exact (computeFileTreeDiff_shows_iff notes named only.ne).mp shows only
  · intro noMixed
    refine ⟨selected, all, fun version mem => ?_⟩
    obtain ⟨tree, notes, fetched, e⟩ := files version mem
    refine ⟨tree, fetched, fun path named changed => ?_⟩
    have listed : version.versionId ∈ ((reviewed worldChanges).insertionSort (· ≤ ·)).map toString := by
      rw [← all]
      exact List.mem_map.mpr ⟨version, mem, rfl⟩
    obtain ⟨v, hv, id⟩ := List.mem_map.mp listed
    rw [e]
    apply (computeFileTreeDiff_shows_iff notes named changed).mpr
    exact noMixed v (mem_addedSorted.mp hv) tree (id ▸ fetched) path named

/-- A page is shown only if the files of all reviewed versions can be fetched. -/
lemma fetched_of_reviewed
    (shown : processWorld parse differ (self.artifactSource parse extract annotations stored pick) world
      worldChanges none = .ok page) {v : V} (mem : v ∈ reviewed worldChanges) :
    ∃ tree, (self.artifactSource parse extract annotations stored pick).fetchTree world (toString v) = .ok tree := by
  have ⟨_, all, files⟩ := processWorld_ok shown
  have listed : toString v ∈ page.versions.map VersionDiff.versionId := by
    rw [all]
    exact List.mem_map.mpr ⟨v, mem_addedSorted.mpr mem, rfl⟩
  obtain ⟨version, hversion, id⟩ := List.mem_map.mp listed
  obtain ⟨tree, _, fetched, _⟩ := files version hversion
  exact ⟨tree, id ▸ fetched⟩

/-- A page that is shown without a choice of the reader compares all reviewed versions with the greatest
earlier version that is not an added one (or the base manual, or nothing), with every file that changed,
exactly if the greatest earlier version is not an added one and no text changed only in its mixed line
endings. Added are the reviewed versions, or also the supported ones where the greatest earlier version can be
fetched. -/
theorem process_world_reviews_iff (semver : Semver parse)
    (shown : processWorld parse differ (self.artifactSource parse extract annotations stored pick) world
      worldChanges none = .ok page) :
    let source := self.artifactSource parse extract annotations stored pick
    ∀ added : List V, added = reviewed worldChanges ∨ added = worldChanges.addedVersions ∧
        (∀ v, IsGreatest (stored.Earlier parse world worldChanges) v →
          ∃ tree, source.fetchTree world (toString v) = .ok tree) →
      ((∃ choice, stored.DefaultFrom parse world worldChanges added choice ∧
          page.Compares source world worldChanges choice) ↔
        (∀ v, IsGreatest (stored.Earlier parse world worldChanges) v → v ∉ added) ∧
          ∀ choice, stored.DefaultFrom parse world worldChanges added choice →
            NoMixedChange source world worldChanges choice) := by
  intro source added which
  have spec : stored.DefaultFrom parse world worldChanges [] (stored.defaultFrom parse world worldChanges) :=
    Viewer.defaultFrom_spec semver
  have readable : ∀ v, IsGreatest (stored.Earlier parse world worldChanges) v → v ∈ added →
      ∃ tree, source.fetchTree world (toString v) = .ok tree := by
    intro v greatest mem
    rcases which with rfl | ⟨-, fetched⟩
    · exact fetched_of_reviewed shown mem
    · exact fetched v greatest
  constructor
  · rintro ⟨choice, right, compares⟩
    have other : ∀ v, IsGreatest (stored.Earlier parse world worldChanges) v → v ∉ added := by
      intro v greatest mem
      have taken : stored.defaultFrom parse world worldChanges = some (toString v) :=
        spec.unique (.earlier ⟨⟨greatest.1, List.not_mem_nil⟩, fun w hw => greatest.2 hw.1⟩)
      obtain ⟨tree, fetched⟩ := readable v greatest mem
      have selected := (processWorld_ok shown).1
      rw [taken, Option.bind_some, fetchFrom_version semver fetched, Option.map_some] at selected
      -- the page names the added version, so the right choice would have to be it
      obtain ⟨pair, hpair, e⟩ := Option.map_eq_some_iff.mp (compares.selected.symm.trans selected)
      obtain ⟨text, rfl, hpair⟩ := Option.bind_eq_some_iff.mp hpair
      rw [fetchFrom_fst hpair] at e
      subst e
      exact right.not_added semver mem
    refine ⟨other, fun choice' right' => ?_⟩
    obtain rfl := right.unique right'
    obtain rfl := (spec.leaveOut other).unique right
    exact (compares_default_iff shown).mp compares
  · rintro ⟨other, noMixed⟩
    have right := spec.leaveOut other
    exact ⟨_, right, (compares_default_iff shown).mpr (noMixed _ right)⟩

/-! ## All worlds -/

/-- If all turns succeed, each has its result. -/
lemma mapM_ok {A C E : Type} {f : A → Except E C} {l : List A} :
    ∀ {results : List C}, l.mapM f = .ok results → ∀ a ∈ l, ∃ c ∈ results, f a = .ok c := by
  induction l with
  | nil => exact fun _ a mem => by cases mem
  | cons b l ih =>
    intro results h a mem
    rw [List.mapM_cons] at h
    cases first : f b with
    | error e =>
      rw [first] at h
      cases h
    | ok c =>
      cases rest : l.mapM f with
      | error e =>
        rw [first, rest] at h
        cases h
      | ok others =>
        rw [first, rest] at h
        obtain rfl : c :: others = results := Except.ok.inj h
        rcases List.mem_cons.mp mem with rfl | mem
        · exact ⟨c, List.mem_cons_self, first⟩
        · obtain ⟨d, hd, e⟩ := ih rest a mem
          exact ⟨d, List.mem_cons_of_mem c hd, e⟩

/-- Every world with a reviewed version has its page. -/
theorem renderDiffs_ok {source : ArtifactSource V N} {changes : Changes V} {params : String → Option String}
    {pages : List (ApworldDiff L)} (shown : renderDiffs parse differ source changes params = .ok pages)
    {world : String} {worldChanges : WorldChanges V} (changed : changes.worlds[world]? = some worldChanges)
    {v : V} (hv : v ∈ reviewed worldChanges) :
    ∃ page ∈ pages, processWorld parse differ source world worldChanges (params (world ++ "_from")) = .ok page := by
  have listed : (world, worldChanges) ∈ changes.worlds.toList.filter fun world =>
      world.2.addedVersions.any fun v => !isSupported world.2 v := by
    have ⟨mem, unsupported⟩ := List.mem_filter.mp hv
    refine List.mem_filter.mpr ⟨?_, List.any_eq_true.mpr ⟨v, mem, unsupported⟩⟩
    exact Std.ExtTreeMap.mem_toList_iff_getElem?_eq_some.mpr changed
  exact mapM_ok shown (world, worldChanges) listed

end

/-! ## Two versions at once -/

/-- Three versions of a world. -/
inductive SampleVersion where
  | v090
  | v100
  | v110
deriving DecidableEq

namespace SampleVersion

/-- Their order. -/
def number : SampleVersion → ℕ
  | v090 => 0
  | v100 => 1
  | v110 => 2

lemma number_injective : Function.Injective number := by
  intro v w e
  cases v <;> cases w <;> first | rfl | cases e

instance : LinearOrder SampleVersion := LinearOrder.lift' number number_injective

instance : ToString SampleVersion where
  toString
    | v090 => "0.9.0"
    | v100 => "1.0.0"
    | v110 => "1.1.0"

/-- What they are read from. -/
def parse (text : String) : Option SampleVersion :=
  if text = "0.9.0" then some v090
  else if text = "1.0.0" then some v100
  else if text = "1.1.0" then some v110
  else none

lemma parse_semver : Semver parse where
  parse_toString v := by cases v <;> decide
  parse_empty := by decide
  parse_base text := by
    have marked : ∀ version : String, version.toList.head? ≠ some 'b' → baseManualPrefix ++ text ≠ version := by
      rintro _ other rfl
      exact other (by rw [String.toList_append]; rfl)
    rw [parse, if_neg (marked _ (by decide)), if_neg (marked _ (by decide)), if_neg (marked _ (by decide))]

end SampleVersion

/-- The files of the two archives. -/
def zipFiles (bytes : List ℕ) : Except String FileTree :=
  if bytes = emptyZip then .ok ∅
  else if bytes = fileZip then .ok ((∅ : FileTree).insert ⟨"a"⟩ (.text "1"))
  else .error ""

/-- The diff of a text with an empty one. -/
def sampleDiffer : Differ Unit String := ⟨fun _ _ => 0, fun _ newText _ _ => [newText]⟩

/-- A submission of an archive as some versions of a world, one of which is stored without a file. -/
def submitVersions (versions : List String) : Viewer (List ℕ) FileTree :=
  viewerAfter zipSha zipFiles
    [.submit (versions.map fun version => ⟨"w", version⟩)
      (fun path => if path ∈ versions.map (fun version => (AddedEntry.mk "w" version).key) then some fileZip
        else none) [("s1", 5)],
      .importApworld "w" "0.9.0" (some emptyZip) 1]

/-- The submission as a source. -/
def sampleSource (versions : List String) : ArtifactSource SampleVersion Unit :=
  SubmissionSource.artifactSource SampleVersion.parse ⟨"s1"⟩ zipFiles (fun _ _ => .ok ∅)
    (submitVersions versions) fun _ _ => 0

/-- Versions that are added and not supported. -/
def sampleChanges (addedVersions : List SampleVersion) : WorldChanges SampleVersion where
  worldName := "W"
  addedVersions := addedVersions
  removedVersions := []
  checksums := ∅
  addedOn := ∅
  removedFrom := ∅

/-- A single added version is compared with the one that was there. -/
theorem oneAdded_reviewed :
    ∃ page, processWorld SampleVersion.parse sampleDiffer (sampleSource ["1.1.0"]) "w" (sampleChanges [.v110])
        none = .ok page ∧
      ∃ choice, (submitVersions ["1.1.0"]).DefaultFrom SampleVersion.parse "w" (sampleChanges [.v110]) [.v110]
          choice ∧
        page.Compares (sampleSource ["1.1.0"]) "w" (sampleChanges [.v110]) choice := by
  have reviewedOnly : reviewed (sampleChanges [.v110]) = [.v110] := by decide
  refine ⟨_, rfl, ?_⟩
  refine (process_world_reviews_iff SampleVersion.parse_semver rfl [.v110] (.inl reviewedOnly.symm)).mpr
    ⟨?_, ?_⟩
  · rintro v ⟨⟨-, latest, greatest, lt⟩, -⟩ mem
    have isLatest := greatest.1
    rw [reviewedOnly] at isLatest
    obtain rfl := List.mem_singleton.mp mem
    obtain rfl := List.mem_singleton.mp isLatest
    exact lt_irrefl _ lt
  · intro choice _ v hv tree fetched path _ only
    rw [reviewedOnly] at hv
    obtain rfl := List.mem_singleton.mp hv
    have files : (sampleSource ["1.1.0"]).fetchTree "w" "1.1.0" =
        .ok ((∅ : FileTree).insert ⟨"a"⟩ (.text "1")) := rfl
    obtain rfl := Except.ok.inj (fetched.symm.trans files)
    have mixed := only.mixed
    rw [Std.ExtTreeMap.getElem?_insert] at mixed
    split at mixed
    case isTrue => exact absurd mixed (by decide)
    case isFalse =>
      rw [Std.ExtTreeMap.getElem?_empty] at mixed
      exact absurd mixed (by decide)

/-- Of two added versions the earlier one is taken to compare both with, and nothing of them is shown. -/
theorem twoAdded_unreviewed :
    ∃ page, processWorld SampleVersion.parse sampleDiffer (sampleSource ["1.0.0", "1.1.0"]) "w"
        (sampleChanges [.v100, .v110]) none = .ok page ∧
      page.selectedFrom = some "1.0.0" ∧ page.versions.map VersionDiff.files = [[], []] ∧
        ¬ ∃ choice, (submitVersions ["1.0.0", "1.1.0"]).DefaultFrom SampleVersion.parse "w"
            (sampleChanges [.v100, .v110]) [.v100, .v110] choice ∧
          page.Compares (sampleSource ["1.0.0", "1.1.0"]) "w" (sampleChanges [.v100, .v110]) choice := by
  refine ⟨_, rfl, by decide, by decide, ?_⟩
  rintro ⟨choice, right, compares⟩
  have stored : (submitVersions ["1.0.0", "1.1.0"]).Indexed SampleVersion.parse "w" .v090 :=
    ⟨⟨"w", "0.9.0", zipSha emptyZip, 1⟩, by decide, rfl, by decide⟩
  have latest : IsGreatest {w | w ∈ reviewed (sampleChanges [.v100, .v110])} SampleVersion.v110 := by
    refine ⟨by decide, fun w _ => ?_⟩
    cases w <;> decide
  have greatest : IsGreatest {w | w ∈ (submitVersions ["1.0.0", "1.1.0"]).Earlier SampleVersion.parse "w"
      (sampleChanges [.v100, .v110]) ∧ w ∉ [SampleVersion.v100, .v110]} .v090 := by
    refine ⟨⟨⟨stored, .v110, latest, by decide⟩, by decide⟩, ?_⟩
    rintro w ⟨-, other⟩
    cases w with
    | v090 => exact le_rfl
    | v100 => exact absurd (by decide) other
    | v110 => exact absurd (by decide) other
  obtain rfl := right.unique (.earlier greatest)
  exact absurd compares.selected (by decide)

end ArchipelagoXL.Apdiff
