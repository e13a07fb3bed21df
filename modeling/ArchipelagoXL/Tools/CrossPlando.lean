import ArchipelagoXL.Lobby.Slots
import ArchipelagoXL.Tools.Evaluate

/-!
# Plando across players

The built-in rule `no_cross_plando` looks for other players in what a YAML plans
(`community-ap-tools/src/review/builtin.rs`). It fails if an entry names one of the other YAMLs of the room as its
name is written. The generation knows a YAML by the name of its slot, which is another one if the name isn't plain:
so the rule may miss such a YAML, or fail for a text that names nobody (`crossPlando_found_iff`).
-/

namespace ArchipelagoXL.Tools

open Lobby (YamlWithoutContent AcceptedName PlainName slotYamls apPlayerNames)

/-! ## The rule -/

/-- A value that is the name of another player is put to the violations. -/
def pushIfOther (fieldName : String) (otherNames violations : List String) (v : Value) : List String :=
  match v.asStr with
  | some name => if otherNames.contains name then violations ++ [fieldName ++ ": " ++ name] else violations
  | none => violations

/-- Rust `check_value_for_player_names`. -/
def checkValueForPlayerNames (val : Value) (fieldName : String) (otherNames violations : List String) : List String :=
  let violations := pushIfOther fieldName otherNames violations val
  let violations := (val.asSequence.getD []).foldl (pushIfOther fieldName otherNames) violations
  ((val.asMapping.getD []).map Prod.fst).foldl (pushIfOther fieldName otherNames) violations

/-- The fields of an entry that name players. -/
def plandoFields : List String := ["from_player", "to_player", "world"]

/-- Rust `check_plando_entry_for_cross_refs`. -/
def checkPlandoEntryForCrossRefs (otherNames violations : List String) (entry : Value) : List String :=
  plandoFields.foldl (fun violations field =>
    match entry.asMappingGet field with
    | some val => checkValueForPlayerNames val field otherNames violations
    | none => violations) violations

/-- A result of the rule. -/
def noCrossPlandoResult (outcome : Outcome) (detail : Option String) : RuleResult :=
  ⟨"No cross-player plando", outcome, .error, detail⟩

/-- The result for some violations. -/
def violationsResult : List String → RuleResult
  | [] => noCrossPlandoResult .pass none
  | violations =>
    noCrossPlandoResult .fail (some ("Plando references other players: " ++ ", ".intercalate violations))

/-- Rust `NoCrossPlando`. -/
def noCrossPlando : BuiltinRule := fun yaml gameName playerName roomYamls =>
  let otherNames := roomYamls.filter (· != playerName)
  match yaml.asMappingGet gameName with
  | none => noCrossPlandoResult .skipped none
  | some gameSection =>
    match gameSection.asMappingGet "plando_items" with
    | none => noCrossPlandoResult .pass none
    | some plando =>
      violationsResult ((plando.asSequence.getD []).foldl (checkPlandoEntryForCrossRefs otherNames) [])

/-! ## What a YAML refers to -/

/-- A value is a text, lists it or has it as a key. -/
inductive Value.Names (name : String) (val : Value) : Prop where
  | is (here : val.asStr = some name)
  | lists {items : List Value} (sequence : val.asSequence = some items) {item : Value} (mem : item ∈ items)
    (here : item.asStr = some name)
  | hasKey {entries : List (Value × Value)} (mapping : val.asMapping = some entries) {e : Value × Value} (mem : e ∈ entries)
    (here : e.1.asStr = some name)

/-- An entry names a text in one of its fields. -/
def Refers (items : List Value) (name : String) : Prop :=
  ∃ entry ∈ items, ∃ field ∈ plandoFields, ∃ val, entry.asMappingGet field = some val ∧ val.Names name

section
variable {A : Type} {P : A → Prop} {f : List String → A → List String}

/-- A loop that only adds comes to something if one of its turns does. -/
lemma foldl_ne_nil_iff (turn : ∀ found a, f found a ≠ [] ↔ found ≠ [] ∨ P a) (l : List A) (found : List String) :
    l.foldl f found ≠ [] ↔ found ≠ [] ∨ ∃ a ∈ l, P a := by
  induction l generalizing found with
  | nil => simp
  | cons a l ih => rw [List.foldl_cons, ih, turn, List.exists_mem_cons_iff, or_assoc]

end

variable {otherNames : List String}

lemma pushIfOther_ne_nil_iff (fieldName : String) (violations : List String) (v : Value) :
    pushIfOther fieldName otherNames violations v ≠ [] ↔
      violations ≠ [] ∨ ∃ name ∈ otherNames, v.asStr = some name := by
  rw [pushIfOther]
  cases v.asStr with
  | none => simp
  | some name => by_cases other : name ∈ otherNames <;> simp [other]

lemma checkValueForPlayerNames_ne_nil_iff (val : Value) (fieldName : String) (violations : List String) :
    checkValueForPlayerNames val fieldName otherNames violations ≠ [] ↔
      violations ≠ [] ∨ ∃ name ∈ otherNames, val.Names name := by
  rw [checkValueForPlayerNames, foldl_ne_nil_iff (pushIfOther_ne_nil_iff fieldName),
    foldl_ne_nil_iff (pushIfOther_ne_nil_iff fieldName), pushIfOther_ne_nil_iff, or_assoc, or_assoc]
  refine or_congr_right ?_
  constructor
  · rintro (⟨name, other, here⟩ | ⟨item, mem, name, other, here⟩ | ⟨key, mem, name, other, here⟩)
    · exact ⟨name, other, .is here⟩
    · cases sequence : val.asSequence with
      | none =>
        rw [sequence] at mem
        cases mem
      | some items =>
        rw [sequence] at mem
        exact ⟨name, other, .lists sequence mem here⟩
    · cases mapping : val.asMapping with
      | none =>
        rw [mapping] at mem
        cases mem
      | some entries =>
        rw [mapping] at mem
        obtain ⟨e, memE, rfl⟩ := List.mem_map.mp mem
        exact ⟨name, other, .hasKey mapping memE here⟩
  · rintro ⟨name, other, names⟩
    cases names with
    | is here => exact .inl ⟨name, other, here⟩
    | @lists items sequence item mem here =>
      rw [sequence]
      exact .inr (.inl ⟨item, mem, name, other, here⟩)
    | @hasKey entries mapping e mem here =>
      rw [mapping]
      exact .inr (.inr ⟨e.1, List.mem_map_of_mem mem, name, other, here⟩)

lemma checkPlandoEntryForCrossRefs_ne_nil_iff (violations : List String) (entry : Value) :
    checkPlandoEntryForCrossRefs otherNames violations entry ≠ [] ↔
      violations ≠ [] ∨ ∃ field ∈ plandoFields, ∃ val, entry.asMappingGet field = some val ∧
        ∃ name ∈ otherNames, val.Names name := by
  rw [checkPlandoEntryForCrossRefs, foldl_ne_nil_iff]
  intro violations field
  cases entry.asMappingGet field with
  | none => simp
  | some val => simp [checkValueForPlayerNames_ne_nil_iff]

lemma violationsResult_fail_iff (violations : List String) :
    (violationsResult violations).outcome = .fail ↔ violations ≠ [] := by
  cases violations with
  | nil => exact iff_of_false (by decide) fun some => some rfl
  | cons violation violations => exact iff_of_true rfl (List.cons_ne_nil _ _)

/-- The rule fails if the plando of the game names another player as written. -/
lemma noCrossPlando_fail_iff {yaml gameSection : Value} {gameName : String} {items : List Value}
    (section_ : yaml.asMappingGet gameName = some gameSection)
    (plando : gameSection.asMappingGet "plando_items" = some (.sequence items)) (playerName : String)
    (roomYamls : List String) :
    (noCrossPlando yaml gameName playerName roomYamls).outcome = .fail ↔
      ∃ name ∈ roomYamls, name ≠ playerName ∧ Refers items name := by
  have result : noCrossPlando yaml gameName playerName roomYamls =
      violationsResult (items.foldl (checkPlandoEntryForCrossRefs (roomYamls.filter (· != playerName))) []) := by
    rw [noCrossPlando, section_]
    dsimp only
    rw [plando]
    rfl
  rw [result, violationsResult_fail_iff, foldl_ne_nil_iff checkPlandoEntryForCrossRefs_ne_nil_iff]
  constructor
  · rintro (nothing | ⟨entry, mem, field, isField, val, under, name, other, names⟩)
    · exact absurd rfl nothing
    · obtain ⟨memName, ne⟩ := List.mem_filter.mp other
      exact ⟨name, memName, bne_iff_ne.mp ne, entry, mem, field, isField, val, under, names⟩
  · rintro ⟨name, memName, ne, entry, mem, field, isField, val, under, names⟩
    exact .inr ⟨entry, mem, field, isField, val, under, name, List.mem_filter.mpr ⟨memName, bne_iff_ne.mpr ne⟩, names⟩

/-! ## Names of slots -/

section
variable {I : Type} [DecidableEq I]

/-- A room of YAMLs that the lobby took and whose slots have different names. -/
structure NamedApart (roomYamls : List (YamlWithoutContent I)) : Prop where
  ids : (roomYamls.map (·.id)).Nodup
  accepted : ∀ yaml ∈ roomYamls, AcceptedName yaml.playerName
  distinct : (apPlayerNames [] (slotYamls roomYamls)).Nodup

/-- What Archipelago calls a YAML of a room. -/
def SlotName (roomYamls : List (YamlWithoutContent I)) (yaml : YamlWithoutContent I) (name : String) : Prop :=
  ∃ k : ℕ, (slotYamls roomYamls)[k]? = some yaml ∧ (apPlayerNames [] (slotYamls roomYamls))[k]? = some name

/-- Some entry names the slot of another YAML. -/
def RefersToOther (roomYamls : List (YamlWithoutContent I)) (yaml : YamlWithoutContent I) (items : List Value) : Prop :=
  ∃ other ∈ roomYamls, other.id ≠ yaml.id ∧ ∃ name, SlotName roomYamls other name ∧ Refers items name

/-- Some entry names another YAML, whose name is plain. -/
def RefersToPlain (roomYamls : List (YamlWithoutContent I)) (yaml : YamlWithoutContent I) (items : List Value) : Prop :=
  ∃ other ∈ roomYamls, other.id ≠ yaml.id ∧ PlainName other.playerName ∧ Refers items other.playerName

/-- Some entry names the slot of another YAML, whose name isn't plain. -/
def RefersToFilled (roomYamls : List (YamlWithoutContent I)) (yaml : YamlWithoutContent I) (items : List Value) : Prop :=
  ∃ other ∈ roomYamls, other.id ≠ yaml.id ∧ ¬PlainName other.playerName ∧
    ∃ name, SlotName roomYamls other name ∧ Refers items name

/-- Some entry has the name of another YAML as it is written, and it isn't plain. -/
def RefersToWritten (roomYamls : List (YamlWithoutContent I)) (yaml : YamlWithoutContent I) (items : List Value) : Prop :=
  ∃ other ∈ roomYamls, other.playerName ≠ yaml.playerName ∧ ¬PlainName other.playerName ∧ Refers items other.playerName

variable {roomYamls : List (YamlWithoutContent I)} {yaml other : YamlWithoutContent I}

/-- Every YAML has a slot with a name. -/
lemma exists_slot (ids : (roomYamls.map (·.id)).Nodup) (mem : yaml ∈ roomYamls) :
    ∃ k : ℕ, (slotYamls roomYamls)[k]? = some yaml := by
  have slot : yaml ∈ slotYamls roomYamls := (Lobby.slotYamls_perm ids).mem_iff.mpr mem
  exact List.mem_iff_getElem?.mp slot

lemma slotName_of_plain (ids : (roomYamls.map (·.id)).Nodup) (mem : yaml ∈ roomYamls) (plain : PlainName yaml.playerName) :
    SlotName roomYamls yaml yaml.playerName := by
  obtain ⟨k, slot⟩ := exists_slot ids mem
  exact ⟨k, slot, plain.getElem_apPlayerNames slot []⟩

lemma SlotName.eq_of_plain {name : String} (named : SlotName roomYamls yaml name) (plain : PlainName yaml.playerName) :
    name = yaml.playerName := by
  obtain ⟨k, slot, name⟩ := named
  rw [plain.getElem_apPlayerNames slot []] at name
  exact (Option.some.inj name).symm

/-- Two YAMLs don't share a plain name. -/
lemma NamedApart.ne_of_plain (apart : NamedApart roomYamls) (mem : yaml ∈ roomYamls) (memOther : other ∈ roomYamls)
    (plain : PlainName other.playerName) (ne : other.id ≠ yaml.id) : other.playerName ≠ yaml.playerName := by
  intro same
  obtain ⟨k, slot, name⟩ := slotName_of_plain apart.ids memOther plain
  obtain ⟨k', slot', name'⟩ := slotName_of_plain apart.ids mem (same ▸ plain)
  rw [← same] at name'
  obtain ⟨here, _⟩ := List.getElem?_eq_some_iff.mp name
  obtain rfl := (List.getElem?_inj here apart.distinct).mp (name.trans name'.symm)
  rw [Option.some.inj (slot.symm.trans slot')] at ne
  exact ne rfl

lemma refersToOther_iff (apart : NamedApart roomYamls) (items : List Value) :
    RefersToOther roomYamls yaml items ↔ RefersToPlain roomYamls yaml items ∨ RefersToFilled roomYamls yaml items := by
  constructor
  · rintro ⟨other, mem, ne, name, named, refers⟩
    -- the slot of a plain name has this name
    by_cases plain : PlainName other.playerName
    · rw [named.eq_of_plain plain] at refers
      exact .inl ⟨other, mem, ne, plain, refers⟩
    · exact .inr ⟨other, mem, ne, plain, name, named, refers⟩
  · rintro (⟨other, mem, ne, plain, refers⟩ | ⟨other, mem, ne, _, name, named, refers⟩)
    · exact ⟨other, mem, ne, _, slotName_of_plain apart.ids mem plain, refers⟩
    · exact ⟨other, mem, ne, name, named, refers⟩

/-- What the rule looks for. -/
lemma written_iff (apart : NamedApart roomYamls) (mem : yaml ∈ roomYamls) (items : List Value) :
    (∃ name ∈ roomYamls.map (·.playerName), name ≠ yaml.playerName ∧ Refers items name) ↔
      RefersToPlain roomYamls yaml items ∨ RefersToWritten roomYamls yaml items := by
  constructor
  · rintro ⟨name, memName, ne, refers⟩
    obtain ⟨other, memOther, rfl⟩ := List.mem_map.mp memName
    by_cases plain : PlainName other.playerName
    · refine .inl ⟨other, memOther, ?_, plain, refers⟩
      intro same
      exact ne (congrArg _ (List.inj_on_of_nodup_map apart.ids memOther mem same))
    · exact .inr ⟨other, memOther, ne, plain, refers⟩
  · rintro (⟨other, memOther, ne, plain, refers⟩ | ⟨other, memOther, ne, _, refers⟩)
    · exact ⟨_, List.mem_map_of_mem memOther, apart.ne_of_plain mem memOther plain ne, refers⟩
    · exact ⟨_, List.mem_map_of_mem memOther, ne, refers⟩

/-- The rule fails for just the YAMLs that refer to another one if they name one with a plain name, or if they name
others whose names aren't plain both as they are written and as their slots are called, or neither way. -/
theorem crossPlando_found_iff {rows : List (YamlWithoutContent I)} (apart : NamedApart roomYamls) (all : rows.Perm roomYamls)
    (mem : yaml ∈ roomYamls) {value gameSection : Value} {gameName : String} {items : List Value}
    (section_ : value.asMappingGet gameName = some gameSection)
    (plando : gameSection.asMappingGet "plando_items" = some (.sequence items)) :
    ((noCrossPlando value gameName yaml.playerName (rows.map (·.playerName))).outcome = .fail ↔
        RefersToOther roomYamls yaml items) ↔
      RefersToPlain roomYamls yaml items ∨
        (RefersToWritten roomYamls yaml items ↔ RefersToFilled roomYamls yaml items) := by
  have names : ∀ name, name ∈ rows.map (·.playerName) ↔ name ∈ roomYamls.map (·.playerName) :=
    fun name => (all.map _).mem_iff
  simp only [noCrossPlando_fail_iff section_ plando, names, written_iff apart mem, refersToOther_iff apart]
  tauto

end

/-! ## A room -/

/-- Two YAMLs, one of them with a number in its name. -/
def aliceAndBob : List (YamlWithoutContent ℕ) := [⟨1, "Alice", none⟩, ⟨2, "Bob\x7bnumber\x7d", none⟩]

/-- The plan for the world of a player. -/
def planFor (name : String) : Value := .mapping [(.string "world", .string name)]

/-- The section of a game with this plan. -/
def sectionFor (name : String) : Value := .mapping [(.string "plando_items", .sequence [planFor name])]

def documentFor (name : String) : Value := .mapping [(.string "Clique", sectionFor name)]

lemma documentFor_section (name : String) : (documentFor name).asMappingGet "Clique" = some (sectionFor name) := rfl

lemma sectionFor_plando (name : String) : (sectionFor name).asMappingGet "plando_items" = some (.sequence [planFor name]) :=
  rfl

lemma aliceAndBob_apart : NamedApart aliceAndBob := by
  constructor
  · decide
  · intro yaml mem
    rcases List.mem_pair.mp mem with rfl | rfl
    · exact ⟨[], [], ("Alice", ["alice"]), by decide +kernel⟩
    · exact ⟨[], [], ("Bob1", ["bob\x7bnumber\x7d"]), by decide +kernel⟩
  · decide +kernel

lemma refers_planFor (name : String) : Refers [planFor name] name :=
  ⟨_, List.mem_singleton_self _, "world", by decide, .string name, rfl, .is rfl⟩

/-- Bob plans for Alice, who is found. -/
theorem plan_for_alice_found :
    (noCrossPlando (documentFor "Alice") "Clique" "Bob\x7bnumber\x7d" (aliceAndBob.map (·.playerName))).outcome = .fail ↔
      RefersToOther aliceAndBob ⟨2, "Bob\x7bnumber\x7d", none⟩ [planFor "Alice"] := by
  have bob : (⟨2, "Bob\x7bnumber\x7d", none⟩ : YamlWithoutContent ℕ) ∈ aliceAndBob := by decide
  refine (crossPlando_found_iff aliceAndBob_apart (List.Perm.refl _) bob (documentFor_section "Alice")
    (sectionFor_plando "Alice")).mpr (.inl ⟨⟨1, "Alice", none⟩, by decide, by decide, ?_, refers_planFor _⟩)
  exact ⟨by decide, by decide, by decide, by decide, by decide⟩

/-- Alice plans for Bob, whose slot is called `Bob1`, and the rule passes. -/
theorem plan_for_bob_passes :
    NamedApart aliceAndBob ∧
      (noCrossPlando (documentFor "Bob1") "Clique" "Alice" (aliceAndBob.map (·.playerName))).outcome = .pass ∧
      RefersToOther aliceAndBob ⟨1, "Alice", none⟩ [planFor "Bob1"] := by
  refine ⟨aliceAndBob_apart, by decide, ⟨2, "Bob\x7bnumber\x7d", none⟩, by decide, by decide, "Bob1", ⟨1, ?_, ?_⟩,
    refers_planFor _⟩
  · decide +kernel
  · decide +kernel

end ArchipelagoXL.Tools
