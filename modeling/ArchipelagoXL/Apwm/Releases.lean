import ArchipelagoXL.Apwm.Views

/-!
# The releases of every base at once

`IndexSet.allReleases` merges the views of all bases, the legacy one first, and keeps what came first.
A version of a world has one origin there (`allReleases_originOf`), so nothing is changed exactly when
no two bases disagree on one. They can only disagree on a version that is the number of a base
where the world is a core world, and that another base offers as a custom release
(`allReleases_exact_iff`).
-/

namespace ArchipelagoXL.Apwm

variable {V : Type} [LinearOrder V]

/-- The origin of a version of a world, if the index has it. -/
def Index.originOf (index : Index V) (name : String) (version : V) : Option WorldOrigin :=
  index.worlds[name]?.bind (·.versions[version]?)

/-- The turn of `allReleases` for one world: what is there stays, what is not is added. -/
def World.mergeFrom (world : World V) (entry : Option (World V)) : World V :=
  let merged := entry.getD world
  { merged with
    versions := BTreeMap.forEntries world.versions merged.versions fun _ origin entry =>
      some (entry.getD origin) }

/-- The turn of `allReleases` for one base. -/
def Index.mergeReleases (all index : Index V) : Index V :=
  { all with
    worlds := BTreeMap.forEntries index.worlds all.worlds fun _ world entry =>
      some (world.mergeFrom entry) }

/-- An index of the releases of every base (Rust `IndexSet::all_releases`). -/
def IndexSet.allReleases [ToString V] (self : IndexSet V) : Index V :=
  self.bases.foldl (fun all _ index => all.mergeReleases index) self.legacy

/-! ### What the merge holds -/

/-- A merged world keeps its own origins and takes the others'. -/
lemma World.mergeFrom_versions (world : World V) (entry : Option (World V)) (version : V) :
    (world.mergeFrom entry).versions[version]? =
      (entry.bind (·.versions[version]?)).or world.versions[version]? := by
  unfold World.mergeFrom
  rw [BTreeMap.getElem?_forEntries]
  cases entry with
  | none => cases h : world.versions[version]? <;> simp [h]
  | some merged =>
    cases h : world.versions[version]? <;> cases h' : merged.versions[version]? <;> simp [h']

/-- Merging one base: an origin that is there stays. -/
lemma Index.mergeReleases_originOf (all index : Index V) (name : String) (version : V) :
    (all.mergeReleases index).originOf name version =
      (all.originOf name version).or (index.originOf name version) := by
  unfold Index.originOf Index.mergeReleases
  rw [BTreeMap.getElem?_forEntries]
  cases h : index.worlds[name]? with
  | none => cases all.worlds[name]? <;> simp
  | some world =>
    show (world.mergeFrom all.worlds[name]?).versions[version]? = _
    rw [World.mergeFrom_versions]
    rfl

/-- Merging one base adds its worlds and no other. -/
lemma Index.mem_mergeReleases (all index : Index V) (name : String) :
    name ∈ (all.mergeReleases index).worlds ↔ name ∈ all.worlds ∨ name ∈ index.worlds := by
  rw [Std.ExtTreeMap.mem_iff_isSome_getElem?, Index.mergeReleases, BTreeMap.getElem?_forEntries,
    Std.ExtTreeMap.mem_iff_isSome_getElem?, Std.ExtTreeMap.mem_iff_isSome_getElem?]
  cases index.worlds[name]? <;> simp

/-- The loop over the bases: the first origin found. -/
lemma foldl_mergeReleases_originOf (l : List (V × Index V)) (all : Index V) (name : String)
    (version : V) :
    (l.foldl (fun all p => all.mergeReleases p.2) all).originOf name version =
      (all.originOf name version).or (l.findSome? fun p => p.2.originOf name version) := by
  induction l generalizing all with
  | nil => simp
  | cons p l ih =>
    rw [List.foldl_cons, ih, Index.mergeReleases_originOf, List.findSome?_cons]
    cases all.originOf name version with
    | some origin => simp
    | none => cases p.2.originOf name version <;> simp

lemma mem_foldl_mergeReleases (l : List (V × Index V)) (all : Index V) (name : String) :
    name ∈ (l.foldl (fun all p => all.mergeReleases p.2) all).worlds ↔
      name ∈ all.worlds ∨ ∃ p ∈ l, name ∈ p.2.worlds := by
  induction l generalizing all with
  | nil => simp
  | cons p l ih =>
    rw [List.foldl_cons, ih, Index.mem_mergeReleases]
    simp [or_assoc]

section

variable [ToString V]

namespace IndexSet

/-- The merge holds the first origin, the legacy base before the others. -/
lemma allReleases_originOf (self : IndexSet V) (name : String) (version : V) :
    self.allReleases.originOf name version = (self.legacy.originOf name version).or
      (self.bases.toList.findSome? fun p => p.2.originOf name version) := by
  unfold allReleases
  rw [Std.ExtTreeMap.foldl_eq_foldl_toList, foldl_mergeReleases_originOf]

/-- What the merge holds, some base has. -/
lemma allReleases_sound (self : IndexSet V) {name : String} {version : V} {origin : WorldOrigin}
    (h : self.allReleases.originOf name version = some origin) :
    ∃ base index, self.get base = some index ∧ index.originOf name version = some origin := by
  rw [allReleases_originOf, Option.or_eq_some_iff] at h
  rcases h with h | ⟨-, h⟩
  · exact ⟨self.legacyBase, self.legacy, self.get_legacy, h⟩
  · obtain ⟨⟨base, index⟩, hp, ho⟩ := List.exists_of_findSome?_eq_some h
    exact ⟨base, index, Std.ExtTreeMap.mem_toList_iff_getElem?_eq_some.mp hp, ho⟩

/-- What a base has, the merge holds with some origin. -/
lemma allReleases_complete (self : IndexSet V) {base : V} {index : Index V} {name : String}
    {version : V} {origin : WorldOrigin} (hget : self.get base = some index)
    (h : index.originOf name version = some origin) :
    ∃ origin', self.allReleases.originOf name version = some origin' := by
  rw [allReleases_originOf]
  have hsome : (self.bases.toList.findSome? fun p => p.2.originOf name version).isSome := by
    rw [List.findSome?_isSome_iff]
    refine ⟨(base, index), Std.ExtTreeMap.mem_toList_iff_getElem?_eq_some.mpr hget, ?_⟩
    rw [h]
    rfl
  rw [← Option.isSome_iff_exists, Option.isSome_or, hsome, Bool.or_true]

/-- The worlds of the merge are those of the bases. -/
lemma mem_allReleases (self : IndexSet V) {name : String} :
    name ∈ self.allReleases.worlds ↔
      ∃ base index, self.get base = some index ∧ name ∈ index.worlds := by
  unfold allReleases
  rw [Std.ExtTreeMap.foldl_eq_foldl_toList, mem_foldl_mergeReleases]
  constructor
  · rintro (h | ⟨⟨base, index⟩, hp, h⟩)
    · exact ⟨self.legacyBase, self.legacy, self.get_legacy, h⟩
    · exact ⟨base, index, Std.ExtTreeMap.mem_toList_iff_getElem?_eq_some.mp hp, h⟩
  · rintro ⟨base, index, hget, h⟩
    exact .inr ⟨(base, index), Std.ExtTreeMap.mem_toList_iff_getElem?_eq_some.mpr hget, h⟩

end IndexSet

/-! ### When the bases agree -/

/-- The world is not disabled on a base. -/
def WorldDef.EnabledOn (self : WorldDef V) (base : V) : Prop :=
  ∃ o, self.overrideFor base = .ok o ∧ self.disabledWith o = false

/-- The world is one of the base's own. -/
def WorldDef.CoreOn (self : WorldDef V) (base : V) : Prop :=
  ∃ o, self.overrideFor base = .ok o ∧ self.disabledWith o = false ∧ self.supportedWith o = true

lemma WorldDef.enabledOn_iff {self : WorldDef V} {base : V} {o : Option (BaseOverride V)}
    (h : self.overrideFor base = .ok o) :
    self.EnabledOn base ↔ self.disabledWith o = false := by
  simp [WorldDef.EnabledOn, h]

lemma WorldDef.coreOn_iff {self : WorldDef V} {base : V} {o : Option (BaseOverride V)}
    (h : self.overrideFor base = .ok o) :
    self.CoreOn base ↔ self.disabledWith o = false ∧ self.supportedWith o = true := by
  simp [WorldDef.CoreOn, h]

omit [ToString V] in
lemma Index.originOf_eq_some {index : Index V} {name : String} {version : V}
    {origin : WorldOrigin} :
    index.originOf name version = some origin ↔
      ∃ world, index.worlds[name]? = some world ∧ world.versions[version]? = some origin :=
  Option.bind_eq_some_iff

/-- The origin of a version under the override of its base: the core copy, or what the tables give. -/
lemma WorldDef.originOf_seenWith {self : WorldDef V} {base : V} {o : Option (BaseOverride V)}
    (h : self.overrideFor base = .ok o) {version : V} {origin : WorldOrigin} :
    (∃ world, self.seenWith base o = some world ∧ world.versions[version]? = some origin) ↔
      self.CoreOn base ∧ base = version ∧ origin = .supported ∨
        self.EnabledOn base ∧ ¬ (self.CoreOn base ∧ base = version) ∧
          self.runs base version = true ∧ self.tableOrigin version = some origin := by
  rw [WorldDef.seenWith_getElem?, WorldDef.versionsFor_getElem?, WorldDef.enabledOn_iff h,
    WorldDef.coreOn_iff h]
  cases hd : self.disabledWith o with
  | true => simp
  | false =>
    by_cases hcore : self.supportedWith o = true ∧ base = version
    · obtain ⟨hs, rfl⟩ := hcore
      simp only [hs, and_self, if_true, Option.some.injEq, true_and, not_true, false_and, and_false,
        or_false]
      exact eq_comm
    · simp only [hcore, true_and, if_false, not_false_eq_true]
      have hnot : ¬ (self.supportedWith o = true ∧ base = version ∧ origin = .supported) :=
        fun ⟨hs, hb, _⟩ => hcore ⟨hs, hb⟩
      simp [hnot]

/-- The origin of a version on a base, read off the world file. -/
lemma IndexSet.originOf_iff {self : IndexSet V} {base : V} {index : Index V}
    (hget : self.get base = some index) {name : String} {version : V} {origin : WorldOrigin} :
    index.originOf name version = some origin ↔
      ∃ worldDef, self.worldDefs[name]? = some worldDef ∧
        (worldDef.CoreOn base ∧ base = version ∧ origin = .supported ∨
          worldDef.EnabledOn base ∧ ¬ (worldDef.CoreOn base ∧ base = version) ∧
            worldDef.runs base version = true ∧ worldDef.tableOrigin version = some origin) := by
  rw [Index.originOf_eq_some]
  constructor
  · rintro ⟨world, hworld, hversion⟩
    obtain ⟨worldDef, o, hdef, ho, hseen⟩ := IndexSet.get_worlds hget hworld
    exact ⟨worldDef, hdef, (WorldDef.originOf_seenWith ho).mp ⟨world, hseen, hversion⟩⟩
  · rintro ⟨worldDef, hdef, horigin⟩
    obtain ⟨o, ho, hseen⟩ := IndexSet.worlds_of_def hget hdef
    obtain ⟨world, hworld, hversion⟩ := (WorldDef.originOf_seenWith ho).mpr horigin
    exact ⟨world, hseen.symm.trans hworld, hversion⟩

/-- No release numbered like a base where the world is a core world is offered as a custom one by
another base. -/
def IndexSet.NoClash (self : IndexSet V) : Prop :=
  ∀ (name : String) (worldDef : WorldDef V), self.worldDefs[name]? = some worldDef →
    ∀ base ∈ self.bases, ∀ other ∈ self.bases, base ≠ other →
      worldDef.CoreOn base → worldDef.EnabledOn other → worldDef.runs other base = true →
        worldDef.tableOrigin base = none ∨ worldDef.tableOrigin base = some .supported

/-- Without such a clash the bases that have a version agree on its origin. -/
lemma IndexSet.NoClash.agree {self : IndexSet V} (h : self.NoClash) {base other : V}
    {index index' : Index V} (hget : self.get base = some index)
    (hget' : self.get other = some index') {name : String} {version : V}
    {origin origin' : WorldOrigin} (ho : index.originOf name version = some origin)
    (ho' : index'.originOf name version = some origin') : origin = origin' := by
  obtain ⟨worldDef, hdef, hcase⟩ := (IndexSet.originOf_iff hget).mp ho
  obtain ⟨worldDef', hdef', hcase'⟩ := (IndexSet.originOf_iff hget').mp ho'
  obtain rfl : worldDef = worldDef' := Option.some.inj (hdef.symm.trans hdef')
  have hbase : base ∈ self.bases := BTreeMap.mem_iff_exists.mpr ⟨index, hget⟩
  have hother : other ∈ self.bases := BTreeMap.mem_iff_exists.mpr ⟨index', hget'⟩
  -- a core copy against a release of the tables is what the condition rules out
  have hclash : ∀ {b c : V}, b ∈ self.bases → c ∈ self.bases → worldDef.CoreOn b →
      worldDef.EnabledOn c → ¬ (worldDef.CoreOn c ∧ c = b) → worldDef.runs c b = true →
      ∀ {o : WorldOrigin}, worldDef.tableOrigin b = some o → o = .supported := by
    intro b c hb hc hcore hen hnot hrun o htable
    have hne : b ≠ c := by
      rintro rfl
      exact hnot ⟨hcore, rfl⟩
    rcases h name worldDef hdef b hb c hc hne hcore hen hrun with hnone | hsup
    · rw [hnone] at htable
      cases htable
    · rw [hsup] at htable
      exact (Option.some.inj htable).symm
  rcases hcase with ⟨hcore, rfl, rfl⟩ | ⟨hen, hnot, hrun, htable⟩
  · rcases hcase' with ⟨-, -, rfl⟩ | ⟨hen', hnot', hrun', htable'⟩
    · rfl
    · exact (hclash hbase hother hcore hen' hnot' hrun' htable').symm
  · rcases hcase' with ⟨hcore', rfl, rfl⟩ | ⟨-, -, -, htable'⟩
    · exact hclash hother hbase hcore' hen hnot hrun htable
    · exact Option.some.inj (htable.symm.trans htable')

/-- The merge has every version of every base with its origin, and nothing else, exactly when no
release numbered like a base where the world is a core world is a custom one on another base. -/
theorem allReleases_exact_iff (self : IndexSet V) :
    ((∀ (base : V) (index : Index V) (name : String) (world : World V) (version : V)
          (origin : WorldOrigin), self.get base = some index →
        index.worlds[name]? = some world → world.versions[version]? = some origin →
          ∃ merged, self.allReleases.worlds[name]? = some merged ∧
            merged.versions[version]? = some origin) ∧
      (∀ name ∈ self.allReleases.worlds, ∃ base index, self.get base = some index ∧
        name ∈ index.worlds) ∧
      ∀ (name : String) (merged : World V), self.allReleases.worlds[name]? = some merged →
        ∀ version ∈ merged.versions, ∃ base index world, self.get base = some index ∧
          index.worlds[name]? = some world ∧ version ∈ world.versions) ↔
      self.NoClash := by
  constructor
  · rintro ⟨hkeeps, -⟩ name worldDef hdef base hbase other hother hne hcore hen hrun
    obtain ⟨index, hget⟩ := BTreeMap.mem_iff_exists.mp hbase
    obtain ⟨index', hget'⟩ := BTreeMap.mem_iff_exists.mp hother
    cases htable : worldDef.tableOrigin base with
    | none => exact .inl rfl
    | some origin =>
      right
      -- both origins would have to be the one that the merge holds
      have ho : index.originOf name base = some .supported :=
        (IndexSet.originOf_iff hget).mpr ⟨worldDef, hdef, .inl ⟨hcore, rfl, rfl⟩⟩
      have ho' : index'.originOf name base = some origin :=
        (IndexSet.originOf_iff hget').mpr
          ⟨worldDef, hdef, .inr ⟨hen, fun h => hne h.2.symm, hrun, htable⟩⟩
      obtain ⟨world, hworld, hversion⟩ := Index.originOf_eq_some.mp ho
      obtain ⟨world', hworld', hversion'⟩ := Index.originOf_eq_some.mp ho'
      obtain ⟨merged, hm, hmv⟩ := hkeeps base index name world base _ hget hworld hversion
      obtain ⟨merged', hm', hmv'⟩ :=
        hkeeps other index' name world' base _ hget' hworld' hversion'
      rw [hm] at hm'
      cases hm'
      rw [hmv] at hmv'
      exact hmv'.symm
  · intro hclash
    refine ⟨?_, ?_, ?_⟩
    · intro base index name world version origin hget hworld hversion
      have ho : index.originOf name version = some origin :=
        Index.originOf_eq_some.mpr ⟨world, hworld, hversion⟩
      obtain ⟨origin', hall⟩ := self.allReleases_complete hget ho
      obtain ⟨other, index', hget', ho'⟩ := self.allReleases_sound hall
      obtain rfl := hclash.agree hget hget' ho ho'
      exact Index.originOf_eq_some.mp hall
    · intro name hname
      exact self.mem_allReleases.mp hname
    · intro name merged hmerged version hversion
      obtain ⟨origin, horigin⟩ := BTreeMap.mem_iff_exists.mp hversion
      obtain ⟨base, index, hget, ho⟩ :=
        self.allReleases_sound (Index.originOf_eq_some.mpr ⟨merged, hmerged, horigin⟩)
      obtain ⟨world, hworld, hv⟩ := Index.originOf_eq_some.mp ho
      exact ⟨base, index, world, hget, hworld, BTreeMap.mem_iff_exists.mpr ⟨origin, hv⟩⟩

end

/-- A world with a custom release 0.6.8 that is a core world from Archipelago 0.6.8 on. -/
def numberedLikeBase : IndexSource PlainVersion :=
  plainSource [("world", { plainWorld "World" [(plain 0 6 8, .url "https://example.invalid/w")]
    with baseOverrides := [
      ({ text := ">=0.6.8", matchesVersion := fun v => plain 0 6 8 ≤ v },
        { supported := some true, disabled := none, defaultVersion := none })] })]

/-- Its release 0.6.8 is the core world on base 0.6.8, but the custom file in the merge. -/
theorem allReleases_changes_core :
    ∃ set, IndexSet.new numberedLikeBase = .ok set ∧
      ¬ ((∀ (base : PlainVersion) (index : Index PlainVersion) (name : String)
            (world : World PlainVersion) (version : PlainVersion) (origin : WorldOrigin),
          set.get base = some index → index.worlds[name]? = some world →
          world.versions[version]? = some origin →
            ∃ merged, set.allReleases.worlds[name]? = some merged ∧
              merged.versions[version]? = some origin) ∧
        (∀ name ∈ set.allReleases.worlds, ∃ base index, set.get base = some index ∧
          name ∈ index.worlds) ∧
        ∀ (name : String) (merged : World PlainVersion),
          set.allReleases.worlds[name]? = some merged →
          ∀ version ∈ merged.versions, ∃ base index world, set.get base = some index ∧
            index.worlds[name]? = some world ∧ version ∈ world.versions) := by
  have hrun : (IndexSet.new numberedLikeBase).toOption.any (fun set =>
      (set.get (plain 0 6 8)).any fun index =>
        index.originOf "world" (plain 0 6 8) = some .supported ∧
          set.allReleases.originOf "world" (plain 0 6 8) =
            some (.url "https://example.invalid/w")) = true := by
    decide
  obtain ⟨set, hset, hchecks⟩ := exists_ok_of_any hrun
  refine ⟨set, hset, ?_⟩
  rintro ⟨hkeeps, -⟩
  obtain ⟨index, hget, hboth⟩ := (Option.any_eq_true _ _).mp hchecks
  obtain ⟨hcore, hmerged⟩ := of_decide_eq_true hboth
  obtain ⟨world, hworld, hversion⟩ := Index.originOf_eq_some.mp hcore
  obtain ⟨merged, hm, hmv⟩ := hkeeps _ index _ world _ _ hget hworld hversion
  rw [Index.originOf_eq_some.mpr ⟨merged, hm, hmv⟩] at hmerged
  cases hmerged

end ArchipelagoXL.Apwm
