import ArchipelagoXL.Apwm.Index

/-!
# Views of the bases

What `WorldDef.forBase` offers is said once, version by version: `tableOrigin` is what the two tables
of a world give for a version on any base, `runs` whether a base may run it, and the core copy stands
at the base's own version (`versionsFor_getElem?`). An `IndexSet` carries the view of each of its
bases with the proof that it is that base's view.
-/

namespace ArchipelagoXL.Apwm

variable {V : Type} [LinearOrder V]

namespace WorldDef

/-- Whether `[releases]` lets `base` run a version. -/
def runs (self : WorldDef V) (base version : V) : Bool :=
  self.releases[version]?.all (·.runsOn base)

/-- What the tables of the world give for a version, whichever base runs it. -/
def tableOrigin (self : WorldDef V) (version : V) : Option WorldOrigin :=
  match self.releases[version]? with
  | some release => some (release.origin.getD (self.versions[version]?.getD .default))
  | none => self.versions[version]?

/-- The two loops of `forBase` offer a version that runs, with what the tables give for it. -/
lemma offered_getElem? (self : WorldDef V) (base version : V) :
    (self.offered base)[version]? =
      if self.runs base version then self.tableOrigin version else none := by
  have hcases : self.releases[version]? = none ∨
      ∃ release, self.releases[version]? = some release :=
    Option.eq_none_or_eq_some _
  obtain hr | ⟨release, hr⟩ := hcases
  · cases hv : self.versions[version]? <;>
      simp [offered, BTreeMap.getElem?_forEntries, runs, tableOrigin, hr, hv]
  · cases hrun : release.runsOn base with
    | false =>
      cases hv : self.versions[version]? <;>
        simp [offered, BTreeMap.getElem?_forEntries, runs, hr, hv, hrun]
    | true =>
      -- the second loop decides: the release's own origin, or what `[versions]` says
      cases ho : release.origin <;> cases hv : self.versions[version]? <;>
        simp [offered, BTreeMap.getElem?_forEntries, runs, tableOrigin, hr, hv, hrun, ho]

/-- The versions a base sees: its own core copy, and what the tables offer there. -/
lemma versionsFor_getElem? (self : WorldDef V) (base : V) (supported : Bool) (version : V) :
    (self.versionsFor base supported)[version]? =
      if supported = true ∧ base = version then some .supported
      else if self.runs base version then self.tableOrigin version else none := by
  cases supported with
  | false => simp [versionsFor, offered_getElem?]
  | true => simp [versionsFor, Std.ExtTreeMap.getElem?_insert, offered_getElem?]

/-- A base has nothing of a world that is not its own and that the tables do not offer it. -/
lemma versionsFor_isEmpty_iff {self : WorldDef V} {base : V} {supported : Bool} :
    (self.versionsFor base supported).isEmpty = true ↔
      supported = false ∧ ∀ version, self.runs base version = true →
        self.tableOrigin version = none := by
  rw [BTreeMap.isEmpty_iff]
  constructor
  · intro h
    have hsupported : supported = false := by
      cases supported with
      | false => rfl
      | true => simpa [versionsFor_getElem?] using h base
    refine ⟨hsupported, ?_⟩
    intro version hruns
    simpa [versionsFor_getElem?, hsupported, hruns] using h version
  · rintro ⟨rfl, h⟩ version
    rw [versionsFor_getElem?]
    cases hruns : self.runs base version with
    | false => simp
    | true => simp [h version hruns]

/-- A base sees nothing of a world that is disabled there or has nothing to offer. -/
lemma seenWith_eq_none_iff {self : WorldDef V} {base : V} {o : Option (BaseOverride V)} :
    self.seenWith base o = none ↔ self.disabledWith o = true ∨
      self.supportedWith o = false ∧ ∀ version, self.runs base version = true →
        self.tableOrigin version = none := by
  rw [← versionsFor_isEmpty_iff]
  simp only [seenWith]
  cases self.disabledWith o with
  | true => simp
  | false => cases (self.versionsFor base (self.supportedWith o)).isEmpty <;> simp

/-- A world that a base sees has a release there. -/
lemma seenWith_versions_ne {self : WorldDef V} {base : V} {o : Option (BaseOverride V)}
    {world : World V} (h : self.seenWith base o = some world) :
    world.versions.isEmpty = false := by
  simp only [seenWith] at h
  split at h
  · cases h
  · split at h
    · cases h
    · rename_i _ hne
      cases h
      simpa using hne

/-- The versions of a world as a base sees it. -/
lemma seenWith_getElem? {self : WorldDef V} {base : V} {o : Option (BaseOverride V)}
    {version : V} {origin : WorldOrigin} :
    (∃ world, self.seenWith base o = some world ∧ world.versions[version]? = some origin) ↔
      self.disabledWith o = false ∧
        (self.versionsFor base (self.supportedWith o))[version]? = some origin := by
  simp only [seenWith]
  cases hd : self.disabledWith o with
  | true => simp
  | false =>
    cases he : (self.versionsFor base (self.supportedWith o)).isEmpty with
    | true => simp [BTreeMap.isEmpty_iff.mp he version]
    | false => simp

end WorldDef

section

variable [ToString V]

lemma WorldDef.forBase_eq_ok {self : WorldDef V} {base : V} {world : Option (World V)} :
    self.forBase base = .ok world ↔
      ∃ o, self.overrideFor base = .ok o ∧ self.seenWith base o = world := by
  unfold WorldDef.forBase
  cases self.overrideFor base with
  | error e => simp [bind, Except.bind]
  | ok o => simp [bind, Except.bind, pure, Except.pure]

namespace IndexSource

/-- The loop gets each world file's own view, or fails with the first that fails. -/
lemma worldsFor_eq_ok {self : IndexSource V} {base : V} {worlds : BTreeMap String (World V)} :
    self.worldsFor base = .ok worlds ↔
      (∀ (name : String) (worldDef : WorldDef V), self.worldDefs[name]? = some worldDef →
        worldDef.forBase base = .ok worlds[name]?) ∧
      ∀ name : String, self.worldDefs[name]? = none → worlds[name]? = none := by
  unfold worldsFor
  rw [BTreeMap.forEntriesM_eq_ok]
  refine and_congr ?_ (by simp)
  apply forall_congr'
  intro name
  apply forall_congr'
  intro worldDef
  cases hf : worldDef.forBase base with
  | error e => simp [bind, Except.bind]
  | ok world => cases world <;> simp [bind, Except.bind, pure, Except.pure]

/-- A view holds, for each world file, what its base sees of it. -/
lemma viewForBase_eq_ok {self : IndexSource V} {base : V} {index : Index V} :
    self.viewForBase base = .ok index ↔
      self.worldsFor base = .ok index.worlds ∧ index =
        { path := self.path
          archipelagoRepo := self.indexFile.archipelagoRepo
          archipelagoVersion := base
          indexHomepage := self.indexFile.indexHomepage
          indexDir := self.indexFile.indexDir
          worlds := index.worlds } := by
  unfold viewForBase
  cases hw : self.worldsFor base with
  | error e => simp [bind, Except.bind]
  | ok worlds =>
    constructor
    · intro h
      cases h
      exact ⟨rfl, rfl⟩
    · rintro ⟨h, hindex⟩
      cases h
      rw [hindex]
      rfl

/-- A world of a view has a release there. -/
lemma viewForBase_versions {source : IndexSource V} {base : V} {index : Index V}
    (h : source.viewForBase base = .ok index) {name : String} {world : World V}
    (hw : index.worlds[name]? = some world) : world.versions.isEmpty = false := by
  obtain ⟨hworlds, -⟩ := viewForBase_eq_ok.mp h
  obtain ⟨hin, hout⟩ := worldsFor_eq_ok.mp hworlds
  cases hdef : source.worldDefs[name]? with
  | none =>
    rw [hout name hdef] at hw
    cases hw
  | some worldDef =>
    obtain ⟨o, -, hseen⟩ := WorldDef.forBase_eq_ok.mp (hin name worldDef hdef)
    exact WorldDef.seenWith_versions_ne (hseen.trans hw)

/-- The last loop of `IndexSet.new` adds exactly the bases it is given. -/
lemma mem_views {self : IndexSource V} {l : List V} {acc out : BTreeMap V (Index V)}
    (h : self.views l acc = .ok out) (base : V) : base ∈ out ↔ base ∈ l ∨ base ∈ acc := by
  induction l generalizing acc with
  | nil =>
    cases h
    simp
  | cons b l ih =>
    unfold views at h
    cases hv : self.viewForBase b with
    | error e =>
      rw [hv] at h
      cases h
    | ok index =>
      rw [hv] at h
      rw [ih h, Std.ExtTreeMap.mem_insert, List.mem_cons, compare_eq_iff_eq]
      constructor
      · rintro (hl | rfl | hacc)
        · exact .inl (.inr hl)
        · exact .inl (.inl rfl)
        · exact .inr hacc
      · rintro ((rfl | hl) | hacc)
        · exact .inr (.inl rfl)
        · exact .inl hl
        · exact .inr (.inr hacc)

/-- It keeps that each base has its own view. -/
lemma views_getElem? {self : IndexSource V} {l : List V} {acc out : BTreeMap V (Index V)}
    (hacc : ∀ (base : V) (index : Index V), acc[base]? = some index →
      self.viewForBase base = .ok index)
    (h : self.views l acc = .ok out) (base : V) (index : Index V)
    (hout : out[base]? = some index) : self.viewForBase base = .ok index := by
  induction l generalizing acc with
  | nil =>
    cases h
    exact hacc base index hout
  | cons b l ih =>
    unfold views at h
    cases hv : self.viewForBase b with
    | error e =>
      rw [hv] at h
      cases h
    | ok view =>
      rw [hv] at h
      refine ih ?_ h
      intro base index hb
      rw [Std.ExtTreeMap.getElem?_insert] at hb
      split at hb
      · rename_i heq
        obtain rfl := compare_eq_iff_eq.mp heq
        cases hb
        exact hv
      · exact hacc base index hb

omit [ToString V] in
/-- `archipelago_version` is always a base. -/
lemma legacy_mem_baseVersions (self : IndexSource V) :
    self.indexFile.archipelagoVersion ∈ self.baseVersions := by
  unfold baseVersions
  simp only
  split
  · assumption
  · simp

end IndexSource

/-- The view of every base an index describes (Rust `IndexSet`). The legacy base, which is all that
older lobbies know about, always has one. -/
structure IndexSet (V : Type) [LinearOrder V] [ToString V] extends IndexSource V where
  legacyBase : V
  bases : BTreeMap V (Index V)
  legacy_eq : legacyBase = indexFile.archipelagoVersion
  legacy_mem : legacyBase ∈ bases
  view_eq : ∀ (base : V) (index : Index V), bases[base]? = some index →
    toIndexSource.viewForBase base = .ok index

namespace IndexSet

/-- Rust `IndexSet::new`, from the decoded files on. -/
def new (source : IndexSource V) : Except String (IndexSet V) :=
  match h : source.views source.baseVersions ∅ with
  | .error e => .error e
  | .ok bases => .ok
    { source with
      legacyBase := source.indexFile.archipelagoVersion
      bases
      legacy_eq := rfl
      legacy_mem := (IndexSource.mem_views h _).mpr (.inl source.legacy_mem_baseVersions)
      view_eq := IndexSource.views_getElem? (by simp) h }

/-- Rust `IndexSet::get`. -/
def get (self : IndexSet V) (base : V) : Option (Index V) :=
  self.bases[base]?

/-- Rust `IndexSet::legacy`. -/
def legacy (self : IndexSet V) : Index V :=
  self.bases.get self.legacyBase self.legacy_mem

lemma get_legacy (self : IndexSet V) : self.get self.legacyBase = some self.legacy :=
  Std.ExtTreeMap.getElem?_eq_some_getElem self.legacy_mem

/-- A world in the view of a base comes from its file, under the override of that base. -/
lemma get_worlds {self : IndexSet V} {base : V} {index : Index V} (h : self.get base = some index)
    {name : String} {world : World V} (hw : index.worlds[name]? = some world) :
    ∃ worldDef o, self.worldDefs[name]? = some worldDef ∧ worldDef.overrideFor base = .ok o ∧
      worldDef.seenWith base o = some world := by
  obtain ⟨hview, -⟩ := IndexSource.viewForBase_eq_ok.mp (self.view_eq base index h)
  obtain ⟨hin, hout⟩ := IndexSource.worldsFor_eq_ok.mp hview
  cases hdef : self.worldDefs[name]? with
  | none =>
    rw [hout name hdef] at hw
    cases hw
  | some worldDef =>
    obtain ⟨o, ho, hseen⟩ := WorldDef.forBase_eq_ok.mp (hin name worldDef hdef)
    exact ⟨worldDef, o, rfl, ho, hseen.trans hw⟩

/-- The view of a base has what its base sees of each world file. -/
lemma worlds_of_def {self : IndexSet V} {base : V} {index : Index V}
    (h : self.get base = some index) {name : String} {worldDef : WorldDef V}
    (hdef : self.worldDefs[name]? = some worldDef) :
    ∃ o, worldDef.overrideFor base = .ok o ∧ worldDef.seenWith base o = index.worlds[name]? := by
  obtain ⟨hview, -⟩ := IndexSource.viewForBase_eq_ok.mp (self.view_eq base index h)
  obtain ⟨hin, -⟩ := IndexSource.worldsFor_eq_ok.mp hview
  exact WorldDef.forBase_eq_ok.mp (hin name worldDef hdef)

end IndexSet

end

end ArchipelagoXL.Apwm
