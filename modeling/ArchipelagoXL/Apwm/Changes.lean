import ArchipelagoXL.Apwm.Views

/-!
# Changes between two indexes

`computeChangesBetween` compares, base by base, what an old and a new index offer. The comparison of
one base (`computeChanges`) is put into one form for its four cases: the versions the new view has
and the old one has not, and the reverse. Over the bases the results are merged, and the invariant
`Collected` says what the merged map holds after any number of bases.
-/

namespace ArchipelagoXL.Apwm

variable {V : Type} [LinearOrder V]

/-- Rust `Checksum`. -/
inductive Checksum where
  | supported
  | hash (value : String)
deriving DecidableEq

/-- Rust `WorldChanges`. -/
structure WorldChanges (V : Type) [LinearOrder V] where
  worldName : String
  addedVersions : List V
  removedVersions : List V
  checksums : BTreeMap V Checksum
  addedOn : BTreeMap V (List V)
  removedFrom : BTreeMap V (List V)

/-- Rust `Changes`. -/
structure Changes (V : Type) [LinearOrder V] where
  worlds : BTreeMap String (WorldChanges V)
  bases : List V
  addedBases : List V

namespace WorldChanges

/-- Each version with the one base (the closure of Rust `WorldChanges::on_base`). -/
def onlyOn (versions : List V) (base : V) : BTreeMap V (List V) :=
  BTreeMap.collect (versions.map fun version => (version, [base]))

/-- Rust `WorldChanges::on_base`. -/
def onBase (worldName : String) (added removed : List V) (base : V) : WorldChanges V where
  worldName := worldName
  addedOn := onlyOn added base
  removedFrom := onlyOn removed base
  addedVersions := added
  removedVersions := removed
  checksums := ∅

/-- The bases of another base's changes, put behind those that are there. -/
def extendBy (bases : BTreeMap V (List V)) (other : BTreeMap V (List V)) : BTreeMap V (List V) :=
  BTreeMap.forEntries other bases fun _ new entry => some (entry.getD [] ++ new)

/-- Rust `WorldChanges::merge`. -/
def merge (self other : WorldChanges V) : WorldChanges V :=
  let addedOn := extendBy self.addedOn other.addedOn
  let removedFrom := extendBy self.removedFrom other.removedFrom
  { self with
    addedOn
    removedFrom
    addedVersions := addedOn.keys
    removedVersions := removedFrom.keys }

end WorldChanges

/-- What changed between two views of the same base (Rust `compute_changes`). -/
def computeChanges (oldIndex newIndex : Index V) : Changes V :=
  let base := newIndex.archipelagoVersion
  let worlds := BTreeMap.forEntries newIndex.worlds ∅ fun name newWorld entry =>
    match oldIndex.worlds[name]? with
    | none => some (WorldChanges.onBase newWorld.name newWorld.versions.keys [] base)
    | some oldWorld =>
      let added := newWorld.versions.keys.filter fun v => !oldWorld.versions.contains v
      let removed := oldWorld.versions.keys.filter fun v => !newWorld.versions.contains v
      if added.isEmpty && removed.isEmpty then entry
      else some (WorldChanges.onBase newWorld.name added removed base)
  let worlds := BTreeMap.forEntries oldIndex.worlds worlds fun name oldWorld entry =>
    if !newIndex.worlds.contains name then
      some (WorldChanges.onBase oldWorld.name [] oldWorld.versions.keys base)
    else entry
  { worlds, bases := [base], addedBases := [] }

/-- The inner loop of Rust `compute_changes_between`. -/
def mergeChanges (worlds changed : BTreeMap String (WorldChanges V)) :
    BTreeMap String (WorldChanges V) :=
  BTreeMap.forEntries changed worlds fun _ worldChanges entry =>
    match entry with
    | some merged => some (merged.merge worldChanges)
    | none => some worldChanges

section

variable [ToString V]

/-- The outer loop of Rust `compute_changes_between`. -/
def changesOver (old new : IndexSet V) : List V → BTreeMap String (WorldChanges V) →
    Except String (BTreeMap String (WorldChanges V))
  | [], worlds => .ok worlds
  | base :: rest, worlds => do
    let oldView ← old.viewForBase base
    match new.get base with
    | none => throw "A base is missing its own view"
    | some newView =>
      changesOver old new rest (mergeChanges worlds (computeChanges oldView newView).worlds)

/-- What changed between two indexes, for every base of the new one
(Rust `compute_changes_between`). -/
def computeChangesBetween (old new : IndexSet V) : Except String (Changes V) := do
  let worlds ← changesOver old new new.bases.keys ∅
  return {
    worlds
    bases := new.bases.keys
    addedBases := new.bases.keys.filter fun base => (old.get base).isNone }

end

/-! ### One base -/

/-- The index has a version of a world. -/
def Index.has (index : Index V) (name : String) (version : V) : Bool :=
  index.worlds[name]?.any (·.versions.contains version)

/-- The versions of a world in order, none for a world that is not there. -/
def Index.versionsOf (index : Index V) (name : String) : List V :=
  (index.worlds[name]?.map (·.versions.keys)).getD []

lemma Index.mem_versionsOf {index : Index V} {name : String} {version : V} :
    version ∈ index.versionsOf name ↔ index.has name version = true := by
  unfold Index.versionsOf Index.has
  cases index.worlds[name]? <;> simp

/-- The versions of a world that the new view has and the old one has not. -/
def addedIn (old new : Index V) (name : String) : List V :=
  (new.versionsOf name).filter fun version => !old.has name version

lemma mem_addedIn {old new : Index V} {name : String} {version : V} :
    version ∈ addedIn old new name ↔
      new.has name version = true ∧ old.has name version = false := by
  simp [addedIn, Index.mem_versionsOf]

/-- Every world has a release, as in every view. -/
def Index.Released (index : Index V) : Prop :=
  ∀ (name : String) (world : World V), index.worlds[name]? = some world →
    world.versions.isEmpty = false

/-- A world that is there and has a release has a version. -/
lemma Index.Released.versionsOf_ne {index : Index V} (h : index.Released) {name : String}
    {world : World V} (hw : index.worlds[name]? = some world) : world.versions.keys ≠ [] := by
  have hne := h name world hw
  rw [← Std.ExtTreeMap.isEmpty_keys, List.isEmpty_eq_false_iff] at hne
  exact hne

lemma addedIn_of_none {old new : Index V} {name : String} {world : World V}
    (hold : old.worlds[name]? = none) (hnew : new.worlds[name]? = some world) :
    addedIn old new name = world.versions.keys := by
  simp [addedIn, Index.versionsOf, Index.has, hold, hnew]

lemma addedIn_of_gone {old new : Index V} {name : String} (hnew : new.worlds[name]? = none) :
    addedIn old new name = [] := by
  simp [addedIn, Index.versionsOf, hnew]

lemma addedIn_of_some {old new : Index V} {name : String} {oldWorld newWorld : World V}
    (hold : old.worlds[name]? = some oldWorld) (hnew : new.worlds[name]? = some newWorld) :
    addedIn old new name =
      newWorld.versions.keys.filter fun v => !oldWorld.versions.contains v := by
  simp [addedIn, Index.versionsOf, Index.has, hold, hnew]

/-- A world differs between two views. -/
def Differs (old new : Index V) (name : String) : Prop :=
  ¬ (addedIn old new name = [] ∧ addedIn new old name = [])

/-- The four cases of `computeChanges` in one: a world is there if anything was added or removed,
with just that. -/
lemma computeChanges_worlds {old new : Index V} (hold : old.Released) (hnew : new.Released)
    (name : String) :
    (Differs old new name → ∃ worldName, (computeChanges old new).worlds[name]? =
        some (WorldChanges.onBase worldName (addedIn old new name) (addedIn new old name)
          new.archipelagoVersion)) ∧
      (¬ Differs old new name → (computeChanges old new).worlds[name]? = none) := by
  have hcontains : new.worlds.contains name = new.worlds[name]?.isSome :=
    Std.ExtTreeMap.contains_eq_isSome_getElem?
  cases ho : old.worlds[name]? with
  | none =>
    cases hn : new.worlds[name]? with
    | none =>
      have hsame : ¬ Differs old new name := by
        simp [Differs, addedIn_of_gone hn, addedIn_of_gone ho]
      refine ⟨fun h => absurd h hsame, fun _ => ?_⟩
      simp [computeChanges, BTreeMap.getElem?_forEntries, ho, hn]
    | some newWorld =>
      -- a new world: all of its versions are added
      have hadded := addedIn_of_none ho hn
      have hne := hnew.versionsOf_ne hn
      refine ⟨fun _ => ⟨newWorld.name, ?_⟩, fun h => ?_⟩
      · rw [hadded, addedIn_of_gone ho]
        simp [computeChanges, BTreeMap.getElem?_forEntries, ho, hn]
      · rw [Differs, not_not, hadded] at h
        exact absurd h.1 hne
  | some oldWorld =>
    cases hn : new.worlds[name]? with
    | none =>
      -- a world that is gone: all of its versions are removed
      have hremoved := addedIn_of_none hn ho
      have hne := hold.versionsOf_ne ho
      refine ⟨fun _ => ⟨oldWorld.name, ?_⟩, fun h => ?_⟩
      · rw [hremoved, addedIn_of_gone hn]
        simp [computeChanges, BTreeMap.getElem?_forEntries, ho, hn, hcontains]
      · rw [Differs, not_not, hremoved] at h
        exact absurd h.2 hne
    | some newWorld =>
      have hlookup : (computeChanges old new).worlds[name]? =
          if (addedIn old new name).isEmpty && (addedIn new old name).isEmpty then none
          else some (WorldChanges.onBase newWorld.name (addedIn old new name)
            (addedIn new old name) new.archipelagoVersion) := by
        rw [addedIn_of_some ho hn, addedIn_of_some hn ho]
        simp [computeChanges, BTreeMap.getElem?_forEntries, ho, hn, hcontains]
      refine ⟨fun h => ⟨newWorld.name, ?_⟩, fun h => ?_⟩
      · rw [hlookup, if_neg]
        simpa [Differs] using h
      · rw [hlookup, if_pos]
        simpa [Differs] using h

lemma addedIn_sorted (old new : Index V) (name : String) :
    (addedIn old new name).Pairwise (· < ·) := by
  unfold addedIn Index.versionsOf
  apply List.Pairwise.filter
  cases new.worlds[name]? with
  | none => exact List.Pairwise.nil
  | some world => exact BTreeMap.keys_sorted world.versions

namespace WorldChanges

lemma onlyOn_getElem? (versions : List V) (base version : V) :
    (onlyOn versions base)[version]? = if version ∈ versions then some [base] else none :=
  BTreeMap.getElem?_collect_const versions [base] version

/-- The versions of one base are the keys of their map. -/
lemma onlyOn_keys {versions : List V} (h : versions.Pairwise (· < ·)) (base : V) :
    (onlyOn versions base).keys = versions := by
  apply List.Pairwise.eq_of_mem_iff (BTreeMap.keys_sorted _) h
  intro version
  rw [Std.ExtTreeMap.mem_keys, Std.ExtTreeMap.mem_iff_isSome_getElem?, onlyOn_getElem?]
  split <;> simp_all

lemma extendBy_getElem? (bases other : BTreeMap V (List V)) (version : V) :
    (extendBy bases other)[version]? =
      other[version]?.elim bases[version]? fun new => some (bases[version]?.getD [] ++ new) :=
  BTreeMap.getElem?_forEntries other bases _ version

end WorldChanges

/-! ### Over the bases -/

/-- A list that stands in a map only if it has something in it. -/
def listed (l : List V) : Option (List V) :=
  if l = [] then none else some l

section

variable [ToString V]

/-- The index set's view of a base, declared or not, has a version of a world. -/
def IndexSource.hasOn (self : IndexSource V) (base : V) (name : String) (version : V) : Bool :=
  (self.viewForBase base).toOption.any (·.has name version)

/-- A version of a world is on a base of `new` and not of `old`. -/
def addedAt (old new : IndexSource V) (name : String) (version base : V) : Bool :=
  new.hasOn base name version && !old.hasOn base name version

/-- What the merged map holds for a world after a list of bases: each version with the bases it was
added on, and those it was removed from. -/
def Collected (old new : IndexSource V) (bases : List V) (name : String) :
    Option (WorldChanges V) → Prop
  | none => ∀ base ∈ bases, ∀ version,
      addedAt old new name version base = false ∧ addedAt new old name version base = false
  | some worldChanges =>
      (∃ base ∈ bases, ∃ version,
        addedAt old new name version base = true ∨ addedAt new old name version base = true) ∧
      (∀ version : V, worldChanges.addedOn[version]? =
        listed (bases.filter (addedAt old new name version))) ∧
      (∀ version : V, worldChanges.removedFrom[version]? =
        listed (bases.filter (addedAt new old name version))) ∧
      worldChanges.addedVersions = worldChanges.addedOn.keys ∧
      worldChanges.removedVersions = worldChanges.removedFrom.keys

lemma addedAt_eq {old new : IndexSource V} {base : V} {oldView newView : Index V}
    (hold : old.viewForBase base = .ok oldView) (hnew : new.viewForBase base = .ok newView)
    (name : String) (version : V) :
    addedAt old new name version base = (newView.has name version && !oldView.has name version) := by
  simp [addedAt, IndexSource.hasOn, hold, hnew, Except.toOption]

lemma mem_addedIn_iff_addedAt {old new : IndexSource V} {base : V} {oldView newView : Index V}
    (hold : old.viewForBase base = .ok oldView) (hnew : new.viewForBase base = .ok newView)
    {name : String} {version : V} :
    version ∈ addedIn oldView newView name ↔ addedAt old new name version base = true := by
  rw [mem_addedIn, addedAt_eq hold hnew]
  simp

omit [ToString V] in
/-- The bases of a version after one more base. -/
lemma extendBy_listed {bases other : BTreeMap V (List V)} {l : List V} {p : V → Bool}
    {base version : V}
    (hbases : bases[version]? = listed (l.filter p))
    (hother : other[version]? = if p base = true then some [base] else none) :
    (WorldChanges.extendBy bases other)[version]? = listed ((l ++ [base]).filter p) := by
  rw [WorldChanges.extendBy_getElem?, hbases, hother, List.filter_append]
  cases hp : p base with
  | false => simp [hp]
  | true =>
    by_cases hl : l.filter p = []
    · simp [listed, hl, hp]
    · simp [listed, hl, hp]

omit [LinearOrder V] [ToString V] in
/-- A base that a version is not listed for adds nothing to its list. -/
lemma filter_concat_of_false {l : List V} {p : V → Bool} {base : V} (h : p base = false) :
    (l ++ [base]).filter p = l.filter p := by
  simp [List.filter_append, h]

/-- A view of an index has its base's number, and its worlds have releases. -/
lemma IndexSource.view_facts {self : IndexSource V} {base : V} {index : Index V}
    (h : self.viewForBase base = .ok index) :
    index.archipelagoVersion = base ∧ index.Released := by
  obtain ⟨-, hindex⟩ := IndexSource.viewForBase_eq_ok.mp h
  refine ⟨?_, fun _ _ => IndexSource.viewForBase_versions h⟩
  rw [hindex]

/-- Two views differ on a world when a version was added or removed there. -/
lemma differs_iff {old new : IndexSource V} {base : V} {oldView newView : Index V}
    (hold : old.viewForBase base = .ok oldView) (hnew : new.viewForBase base = .ok newView)
    {name : String} :
    Differs oldView newView name ↔ ∃ version,
      addedAt old new name version base = true ∨ addedAt new old name version base = true := by
  simp only [← mem_addedIn_iff_addedAt hold hnew, ← mem_addedIn_iff_addedAt hnew hold, Differs,
    List.eq_nil_iff_forall_not_mem]
  push Not
  constructor
  · intro h
    by_cases hadded : ∃ version, version ∈ addedIn oldView newView name
    · exact hadded.imp fun _ => .inl
    · push Not at hadded
      exact (h hadded).imp fun _ => .inr
  · rintro ⟨version, h⟩ hadded
    exact ⟨version, h.resolve_left (hadded version)⟩

/-- The changes of one base. -/
lemma onBase_lookup {old new : IndexSource V} {base : V} {oldView newView : Index V}
    (hold : old.viewForBase base = .ok oldView) (hnew : new.viewForBase base = .ok newView)
    (name : String) (version : V) :
    (WorldChanges.onlyOn (addedIn oldView newView name) base)[version]? =
      if addedAt old new name version base = true then some [base] else none := by
  rw [WorldChanges.onlyOn_getElem?]
  simp only [mem_addedIn_iff_addedAt hold hnew]

/-- One base more keeps the map exact for a world. -/
lemma Collected.step {old new : IndexSource V} {bases : List V} {base : V}
    {oldView newView : Index V} {worlds : BTreeMap String (WorldChanges V)} {name : String}
    (h : Collected old new bases name worlds[name]?)
    (hold : old.viewForBase base = .ok oldView) (hnew : new.viewForBase base = .ok newView) :
    Collected old new (bases ++ [base]) name
      (mergeChanges worlds (computeChanges oldView newView).worlds)[name]? := by
  obtain ⟨hversion, hreleased⟩ := new.view_facts hnew
  obtain ⟨hsome, hnone⟩ := computeChanges_worlds (old.view_facts hold).2 hreleased name
  rw [hversion] at hsome
  have hadded := onBase_lookup hold hnew name
  have hremoved := onBase_lookup hnew hold name
  unfold mergeChanges
  rw [BTreeMap.getElem?_forEntries]
  by_cases hdiff : Differs oldView newView name
  · obtain ⟨worldName, hchanged⟩ := hsome hdiff
    obtain ⟨v, hv⟩ := (differs_iff hold hnew).mp hdiff
    have hthere : ∃ b ∈ bases ++ [base], ∃ version, addedAt old new name version b = true ∨
        addedAt new old name version b = true := ⟨base, by simp, v, hv⟩
    rw [hchanged]
    cases hw : worlds[name]? with
    | none =>
      -- the first base that changes the world: no earlier one is listed
      rw [hw] at h
      have hfirst : ∀ p : V → Bool, (∀ b ∈ bases, p b = false) →
          listed ((bases ++ [base]).filter p) = if p base = true then some [base] else none := by
        intro p hp
        have hnil : bases.filter p = [] := by
          simpa using hp
        rw [List.filter_append, hnil]
        cases hpb : p base <;> simp [listed, hpb]
      refine ⟨hthere, ?_, ?_, (WorldChanges.onlyOn_keys (addedIn_sorted _ _ _) base).symm,
        (WorldChanges.onlyOn_keys (addedIn_sorted _ _ _) base).symm⟩
      · intro version
        rw [hfirst _ fun b hb => (h b hb version).1]
        exact hadded version
      · intro version
        rw [hfirst _ fun b hb => (h b hb version).2]
        exact hremoved version
    | some merged =>
      rw [hw] at h
      obtain ⟨-, ha, hr, -, -⟩ := h
      exact ⟨hthere, fun version => extendBy_listed (ha version) (hadded version),
        fun version => extendBy_listed (hr version) (hremoved version), rfl, rfl⟩
  · have hbase : ∀ version, addedAt old new name version base = false ∧
        addedAt new old name version base = false := by
      intro version
      have := mt (differs_iff hold hnew).mpr hdiff
      push Not at this
      simpa using this version
    rw [hnone hdiff]
    show Collected old new (bases ++ [base]) name worlds[name]?
    cases hw : worlds[name]? with
    | none =>
      rw [hw] at h
      intro b hb
      rcases List.mem_append.mp hb with hb | hb
      · exact h b hb
      · rw [List.mem_singleton.mp hb]
        exact hbase
    | some merged =>
      rw [hw] at h
      obtain ⟨⟨b, hb, hbv⟩, ha, hr, hka, hkr⟩ := h
      refine ⟨⟨b, by simp [hb], hbv⟩, ?_, ?_, hka, hkr⟩
      · intro version
        rw [filter_concat_of_false (hbase version).1]
        exact ha version
      · intro version
        rw [filter_concat_of_false (hbase version).2]
        exact hr version

/-- The loop over the bases keeps the map exact. -/
lemma changesOver_collected {old new : IndexSet V} {done rest : List V}
    {acc out : BTreeMap String (WorldChanges V)} (h : changesOver old new rest acc = .ok out)
    (name : String)
    (hacc : Collected old.toIndexSource new.toIndexSource done name acc[name]?) :
    Collected old.toIndexSource new.toIndexSource (done ++ rest) name out[name]? := by
  induction rest generalizing done acc with
  | nil =>
    cases h
    simpa using hacc
  | cons base rest ih =>
    unfold changesOver at h
    cases hold : old.viewForBase base with
    | error e =>
      rw [hold] at h
      cases h
    | ok oldView =>
      rw [hold] at h
      cases hget : new.get base with
      | none =>
        simp only [hget] at h
        cases h
      | some newView =>
        simp only [hget] at h
        have hstep := hacc.step hold (new.view_eq base newView hget)
        have := ih h hstep
        rwa [List.append_assoc, List.singleton_append] at this

/-- The loop fails only on a base that the old index has no view for. -/
lemma changesOver_ok_iff {old new : IndexSet V} {l : List V} (hl : ∀ base ∈ l, base ∈ new.bases)
    {acc : BTreeMap String (WorldChanges V)} :
    (∃ out, changesOver old new l acc = .ok out) ↔
      ∀ base ∈ l, ∃ view, old.viewForBase base = .ok view := by
  induction l generalizing acc with
  | nil => simp [changesOver]
  | cons base l ih =>
    obtain ⟨newView, hget⟩ := BTreeMap.mem_iff_exists.mp (hl base List.mem_cons_self)
    have hget : new.get base = some newView := hget
    unfold changesOver
    cases hold : old.viewForBase base with
    | error e =>
      constructor
      · rintro ⟨out, h⟩
        cases h
      · intro h
        obtain ⟨view, hview⟩ := h base List.mem_cons_self
        rw [hold] at hview
        cases hview
    | ok oldView =>
      simp only [hget]
      refine (ih fun b hb => hl b (List.mem_cons_of_mem _ hb)).trans ?_
      constructor
      · intro h b hb
        rcases List.mem_cons.mp hb with rfl | hb
        · exact ⟨oldView, hold⟩
        · exact h b hb
      · intro h b hb
        exact h b (List.mem_cons_of_mem _ hb)

/-- The changes list a base under a version of a world in one of their two maps. -/
def Changes.Lists (self : Changes V) (which : WorldChanges V → BTreeMap V (List V))
    (name : String) (version base : V) : Prop :=
  ∃ worldChanges bases, self.worlds[name]? = some worldChanges ∧
    (which worldChanges)[version]? = some bases ∧ base ∈ bases

omit [LinearOrder V] [ToString V] in
lemma listed_eq_some {l bases : List V} : listed l = some bases ↔ l ≠ [] ∧ l = bases := by
  unfold listed
  by_cases h : l = [] <;> simp [h]

/-- A base is listed when it is one of the bases and the version is added there. -/
lemma Collected.lists_iff {old new : IndexSource V} {bases : List V} {name : String}
    {changes : Changes V} (h : Collected old new bases name changes.worlds[name]?)
    {version base : V} (hbase : base ∈ bases) :
    (changes.Lists (·.addedOn) name version base ↔ addedAt old new name version base = true) ∧
      (changes.Lists (·.removedFrom) name version base ↔
        addedAt new old name version base = true) := by
  unfold Changes.Lists
  cases hw : changes.worlds[name]? with
  | none =>
    rw [hw] at h
    obtain ⟨ha, hr⟩ := h base hbase version
    simp [ha, hr]
  | some worldChanges =>
    rw [hw] at h
    obtain ⟨-, ha, hr, -, -⟩ := h
    have hmem : ∀ p : V → Bool,
        (∃ l, listed (bases.filter p) = some l ∧ base ∈ l) ↔ p base = true := by
      intro p
      constructor
      · rintro ⟨l, hl, hb⟩
        obtain ⟨-, rfl⟩ := listed_eq_some.mp hl
        exact (List.mem_filter.mp hb).2
      · intro hp
        have hin : base ∈ bases.filter p := List.mem_filter.mpr ⟨hbase, hp⟩
        exact ⟨_, listed_eq_some.mpr ⟨List.ne_nil_of_mem hin, rfl⟩, hin⟩
    simp only [Option.some.injEq, exists_and_left, exists_eq_left', ha version, hr version, hmem,
      and_self]

lemma computeChangesBetween_eq_ok {old new : IndexSet V} {changes : Changes V}
    (h : computeChangesBetween old new = .ok changes) :
    changesOver old new new.bases.keys ∅ = .ok changes.worlds := by
  unfold computeChangesBetween at h
  cases hloop : changesOver old new new.bases.keys ∅ with
  | error e =>
    rw [hloop] at h
    cases h
  | ok worlds =>
    rw [hloop] at h
    cases h
    rfl

/-- When the computation succeeds. -/
lemma computeChangesBetween_ok_iff {old new : IndexSet V} :
    (∃ changes, computeChangesBetween old new = .ok changes) ↔
      ∀ base ∈ new.bases, ∃ view, old.viewForBase base = .ok view := by
  have hkeys : ∀ base ∈ new.bases.keys, base ∈ new.bases := fun base hb =>
    Std.ExtTreeMap.mem_keys.mp hb
  have hloop : (∃ out, changesOver old new new.bases.keys ∅ = .ok out) ↔
      ∀ base ∈ new.bases.keys, ∃ view, old.viewForBase base = .ok view :=
    changesOver_ok_iff hkeys
  constructor
  · rintro ⟨changes, h⟩ base hbase
    exact hloop.mp ⟨_, computeChangesBetween_eq_ok h⟩ base (Std.ExtTreeMap.mem_keys.mpr hbase)
  · intro h
    obtain ⟨worlds, hworlds⟩ := hloop.mpr fun base hb => h base (hkeys base hb)
    unfold computeChangesBetween
    rw [hworlds]
    exact ⟨_, rfl⟩

/-- The computation fails only when the old index has no view for a base of the new one. Otherwise a
base of the new index is listed under a version of a world exactly when the version became available
on it, or stopped being so; every list is strictly increasing, the lists of versions are those of the
maps, and a world is left out exactly when nothing differs on any base. -/
theorem changes_exact (old new : IndexSet V) :
    ((∃ changes, computeChangesBetween old new = .ok changes) ↔
      ∀ base ∈ new.bases, ∃ view, old.viewForBase base = .ok view) ∧
    ∀ changes, computeChangesBetween old new = .ok changes →
      (∀ (base : V) (newView oldView : Index V), new.get base = some newView →
        old.viewForBase base = .ok oldView → ∀ (name : String) (version : V),
          (changes.Lists (·.addedOn) name version base ↔
            newView.has name version = true ∧ oldView.has name version = false) ∧
          (changes.Lists (·.removedFrom) name version base ↔
            oldView.has name version = true ∧ newView.has name version = false)) ∧
      (∀ (name : String) (worldChanges : WorldChanges V),
        changes.worlds[name]? = some worldChanges →
          (∀ (version : V) (bases : List V), worldChanges.addedOn[version]? = some bases →
            bases.Pairwise (· < ·)) ∧
          (∀ (version : V) (bases : List V), worldChanges.removedFrom[version]? = some bases →
            bases.Pairwise (· < ·)) ∧
          worldChanges.addedVersions = worldChanges.addedOn.keys ∧
          worldChanges.removedVersions = worldChanges.removedFrom.keys) ∧
      ∀ name : String, changes.worlds[name]? = none ↔
        ∀ (base : V) (newView oldView : Index V), new.get base = some newView →
          old.viewForBase base = .ok oldView →
          ∀ version, newView.has name version = oldView.has name version := by
  refine ⟨computeChangesBetween_ok_iff, ?_⟩
  intro changes hchanges
  have hviews := computeChangesBetween_ok_iff.mp ⟨changes, hchanges⟩
  have hcollected : ∀ name : String, Collected old.toIndexSource new.toIndexSource new.bases.keys
      name changes.worlds[name]? := by
    intro name
    have hempty : Collected old.toIndexSource new.toIndexSource [] name
        (∅ : BTreeMap String (WorldChanges V))[name]? := by
      intro base hbase
      cases hbase
    exact changesOver_collected (computeChangesBetween_eq_ok hchanges) name hempty
  have hsorted : ∀ p : V → Bool, (new.bases.keys.filter p).Pairwise (· < ·) := fun p =>
    (BTreeMap.keys_sorted new.bases).filter p
  refine ⟨?_, ?_, ?_⟩
  · intro base newView oldView hget hold name version
    have hbase : base ∈ new.bases.keys :=
      Std.ExtTreeMap.mem_keys.mpr (BTreeMap.mem_iff_exists.mpr ⟨newView, hget⟩)
    have hnew := new.view_eq base newView hget
    obtain ⟨ha, hr⟩ := (hcollected name).lists_iff hbase
    rw [ha, hr, addedAt_eq hold hnew, addedAt_eq hnew hold]
    simp
  · intro name worldChanges hw
    have h := hcollected name
    rw [hw] at h
    obtain ⟨-, ha, hr, hka, hkr⟩ := h
    refine ⟨?_, ?_, hka, hkr⟩
    · intro version bases hb
      rw [ha version] at hb
      obtain ⟨-, rfl⟩ := listed_eq_some.mp hb
      exact hsorted _
    · intro version bases hb
      rw [hr version] at hb
      obtain ⟨-, rfl⟩ := listed_eq_some.mp hb
      exact hsorted _
  · intro name
    have h := hcollected name
    cases hw : changes.worlds[name]? with
    | none =>
      rw [hw] at h
      refine ⟨fun _ => ?_, fun _ => rfl⟩
      intro base newView oldView hget hold version
      have hbase : base ∈ new.bases.keys :=
        Std.ExtTreeMap.mem_keys.mpr (BTreeMap.mem_iff_exists.mpr ⟨newView, hget⟩)
      have hnew := new.view_eq base newView hget
      obtain ⟨ha, hr⟩ := h base hbase version
      rw [addedAt_eq hold hnew] at ha
      rw [addedAt_eq hnew hold] at hr
      cases hn : newView.has name version <;> cases ho : oldView.has name version <;> simp_all
    | some worldChanges =>
      rw [hw] at h
      refine ⟨fun hnone => (by cases hnone), fun hsame => ?_⟩
      -- a base on which a version was added or removed
      obtain ⟨⟨base, hbase, version, hdiff⟩, -⟩ := h
      have hmem := Std.ExtTreeMap.mem_keys.mp hbase
      obtain ⟨newView, hget⟩ := BTreeMap.mem_iff_exists.mp hmem
      obtain ⟨oldView, hold⟩ := hviews base hmem
      have hnew := new.view_eq base newView hget
      rw [addedAt_eq hold hnew, addedAt_eq hnew hold,
        hsame base newView oldView hget hold version] at hdiff
      simp at hdiff

end

/-- An index with one world of the given releases. -/
def releasing (versions : List (PlainVersion × WorldOrigin)) : IndexSource PlainVersion :=
  plainSource [("world", plainWorld "World" versions)]

/-- A release added to `[versions]` is listed as added on base 0.6.8. -/
theorem changes_list_added_release :
    ∃ old new changes, IndexSet.new (releasing [(plain 1 0 0, .default)]) = .ok old ∧
      IndexSet.new (releasing [(plain 1 0 0, .default), (plain 1 1 0, .default)]) = .ok new ∧
      computeChangesBetween old new = .ok changes ∧
      changes.Lists (·.addedOn) "world" (plain 1 1 0) (plain 0 6 8) := by
  have hrun : (IndexSet.new (releasing [(plain 1 0 0, .default)])).toOption.any (fun old =>
      (IndexSet.new (releasing [(plain 1 0 0, .default), (plain 1 1 0, .default)])).toOption.any
        fun new => (computeChangesBetween old new).toOption.any fun _ =>
          (new.get (plain 0 6 8)).any fun newView =>
            (old.viewForBase (plain 0 6 8)).toOption.any fun oldView =>
              newView.has "world" (plain 1 1 0) &&
                !oldView.has "world" (plain 1 1 0)) = true := by
    decide
  obtain ⟨old, hold, hrun⟩ := exists_ok_of_any hrun
  obtain ⟨new, hnew, hrun⟩ := exists_ok_of_any hrun
  obtain ⟨changes, hchanges, hrun⟩ := exists_ok_of_any hrun
  obtain ⟨newView, hget, hrun⟩ := (Option.any_eq_true _ _).mp hrun
  obtain ⟨oldView, hview, hhas⟩ := exists_ok_of_any hrun
  refine ⟨old, new, changes, hold, hnew, hchanges, ?_⟩
  have hlists := ((changes_exact old new).2 changes hchanges).1 _ newView oldView hget hview
    "world" (plain 1 1 0)
  apply hlists.1.mpr
  simpa using hhas

end ArchipelagoXL.Apwm
