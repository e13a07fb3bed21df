import ArchipelagoXL.Tools.Triggers
import ArchipelagoXL.Tools.Rewriting

/-!
# Settling the triggers of a YAML

The options of the triggers that can fire are set in passes, until a pass changes nothing or too many passes are
made. Each pass looks for the triggers in the document that the pass before it wrote and read again. A sequence
of mappings does not survive this, so the document has no trigger left after the first pass that changes it: what
the triggers of this pass enable is not applied.
-/

namespace ArchipelagoXL.Tools

/-! ## A pass -/

mutual

/-- Rust `==`. -/
def sameValue : Value → Value → Bool
  | .null, .null | .bad, .bad => true
  | .boolean a, .boolean b => a == b
  | .integer a, .integer b => a == b
  | .floatingPoint a, .floatingPoint b => a == b
  | .string a, .string b => a == b
  | .sequence as, .sequence bs => sameItems as bs
  | .mapping as, .mapping bs => sameEntries as bs
  | _, _ => false

def sameItems : List Value → List Value → Bool
  | [], [] => true
  | a :: as, b :: bs => sameValue a b && sameItems as bs
  | _, _ => false

def sameEntries : List (Value × Value) → List (Value × Value) → Bool
  | [], [] => true
  | (k, a) :: as, (l, b) :: bs => sameValue k l && sameValue a b && sameEntries as bs
  | _, _ => false

end

def isTrueishMatch (optionVal : Value) (triggerResult : String) : Bool :=
  reviewValueAsString optionVal == some triggerResult

def valueCanMatch (val : Value) (triggerResult : String) : Bool :=
  isTrueishMatch val triggerResult ||
    match val.asMapping with
    | some map => map.any fun e => e.2.asInteger.getD 0 != 0 && isTrueishMatch e.1 triggerResult
    | none => false

/-- The value that a trigger looks at can be the one it waits for. -/
def Trigger.canFire (t : Trigger) (current : Value) : Bool :=
  match (current.asMappingGet t.optionCategory).bind fun game => game.asMappingGet t.optionName with
  | some optionVal => valueCanMatch optionVal t.optionResult
  | none => false

def yamlValuesEqual (a b : Value) : Bool :=
  match a.asStr, b.asStr with
  | some s, some t => s == t
  | _, _ =>
    match a.asInteger, b.asInteger with
    | some i, some j => i == j
    | _, _ =>
      match a.asBool, b.asBool with
      | some x, some y => x == y
      | _, _ => false

def inlineItem (item : Value) : List Char := "- ".toList ++ yamlValueToInline item

def mergeAdditive (load : String → Option (List Value)) (existing : Option Value) (addition : Value) : Value :=
  let items := ((existing.bind Value.asSequence).getD []).map inlineItem ++
    match addition.asSequence with
    | some seq => seq.map inlineItem
    | none => [inlineItem addition]
  ((load (String.ofList (['\n'].intercalate items))).bind List.getLast?).getD addition

/-- What one option of a trigger that can fire adds to the changes of a pass. -/
def optionChange (load : String → Option (List Value)) (current : Value) (changes : YamlChanges)
    (option : String × String × Value × Bool) : YamlChanges :=
  let (game, key, value, isAdditive) := option
  match current.asMappingGet game with
  | none => changes
  | some gameSection =>
    let existing := gameSection.asMappingGet key
    if isAdditive then
      let merged := mergeAdditive load existing value
      if existing.any fun e => sameValue e merged then changes else changes.insert game key merged
    else if existing.any fun e => yamlValuesEqual e value then changes
    else changes.insert game key value

def triggerChanges (load : String → Option (List Value)) (current : Value) (changes : YamlChanges) (t : Trigger) :
    YamlChanges :=
  if t.canFire current then t.options.foldl (optionChange load current) changes else changes

/-- The changes of a pass. -/
def passChanges (load : String → Option (List Value)) (current : Value) : YamlChanges :=
  (collectTriggers current).foldl (triggerChanges load current) []

/-! ## The passes -/

def maxIterations : ℕ := 50

/-- At most `n` passes; `arrange` gives for each of them the order in which its maps come out. -/
def settleWithin (load : String → Option (List Value)) (arrange : ℕ → Arrangement) : ℕ → Value → Value
  | 0, current => current
  | n + 1, current =>
    let changes := passChanges load current
    if changes.isEmpty then current
    else settleWithin load arrange n (setYamlValues load (arrange n) current changes)

/-- One of `n` passes changes nothing. -/
def StopsWithin (load : String → Option (List Value)) (arrange : ℕ → Arrangement) : ℕ → Value → Prop
  | 0, _ => False
  | n + 1, current =>
    passChanges load current = [] ∨
      StopsWithin load arrange n (setYamlValues load (arrange n) current (passChanges load current))

/-- The loop of `resolve_triggers`. -/
def settle (load : String → Option (List Value)) (arrange : ℕ → Arrangement) (yaml : Value) : Value :=
  settleWithin load arrange maxIterations yaml

/-! ## What is to be settled -/

/-- A trigger of the YAML that can fire in a document gives the option the value that it has there. -/
def GivenBy (yaml doc : Value) (game key : String) : Prop :=
  ∃ t ∈ collectTriggers yaml, t.canFire doc = true ∧
    ∃ v, (game, key, v, false) ∈ t.options ∧
      ((doc.asMappingGet game).bind fun gameSection => gameSection.asMappingGet key) = some v

/-- Each trigger of the YAML that can fire in a document has its options there, as far as there are sections for
them. Options that are added to what is there are not looked at. -/
def AllApplied (yaml doc : Value) : Prop :=
  ∀ t ∈ collectTriggers yaml, t.canFire doc = true → ∀ game key v, (game, key, v, false) ∈ t.options →
    (yaml.asMappingGet game).isSome = true → GivenBy yaml doc game key

/-- Unless too many passes are made, all triggers are applied in the end. -/
def TriggersSettled (load : String → Option (List Value)) (arrange : ℕ → Arrangement) (yaml : Value) : Prop :=
  StopsWithin load arrange maxIterations yaml → AllApplied yaml (resolveTriggers (settle load arrange) yaml)

/-- The document with the changes of the first pass, before it is written. -/
def firstPass (load : String → Option (List Value)) (arrange : ℕ → Arrangement) (yaml : Value) : Value :=
  .mapping (changeDocument (arrange (maxIterations - 1)) (passChanges load yaml) (yaml.asMapping.getD []))

/-- The document after one round of changes. -/
def afterOneRound (load : String → Option (List Value)) (arrange : ℕ → Arrangement) (yaml : Value) : Value :=
  if (passChanges load yaml).isEmpty then yaml else reread (firstPass load arrange yaml)

/-- If the first pass changes the document, each key and each text of the changed one can stand on its line. -/
def Plain (load : String → Option (List Value)) (arrange : ℕ → Arrangement) (yaml : Value) : Prop :=
  passChanges load yaml ≠ [] → writable (firstPass load arrange yaml) = true

/-! ## No trigger is read back -/

lemma Scalar.asMappingGet (s : Scalar) (key : String) : s.value.asMappingGet key = none := by
  cases s with
  | _ => rfl

lemma parseTriggersFrom_reread (v : Value) : parseTriggersFrom (reread v) = [] := by
  rcases reread_shape v with ⟨s, scalar⟩ | ⟨ss, sequence⟩ | ⟨entries, mapping⟩
  · rw [scalar]
    cases s with
    | _ => rfl
  · rw [sequence, parseTriggersFrom, Value.asSequence, Option.getD_some, List.filterMap_map]
    apply List.filterMap_eq_nil_iff.mpr
    intro s _
    simp only [Function.comp_apply, parseTrigger, s.asMappingGet]
    rfl
  · rw [mapping]
    rfl

lemma mem_rereadEntries {entries : List (Value × Value)} {e : Value × Value} (mem : e ∈ rereadEntries entries) :
    ∃ v, e.2 = reread v := by
  rw [rereadEntries_eq] at mem
  obtain ⟨e', _, rfl⟩ := List.mem_map.mp mem
  exact ⟨e'.2, rfl⟩

/-- What is found in a document that was read back was itself read back. -/
lemma asMappingGet_reread {v w : Value} {key : String} (found : (reread v).asMappingGet key = some w) :
    ∃ u, w = reread u := by
  rcases reread_shape v with ⟨s, scalar⟩ | ⟨ss, sequence⟩ | ⟨entries, mapping⟩
  · rw [scalar, s.asMappingGet] at found
    cases found
  · rw [sequence] at found
    cases found
  · rw [mapping] at found
    obtain ⟨e, here, rfl⟩ := Option.map_eq_some_iff.mp found
    exact mem_rereadEntries (List.mem_of_find?_eq_some here)

/-- There are no triggers under a key of what was read back. -/
lemma triggersOf_reread (v : Value) : (((reread v).asMappingGet "triggers").map parseTriggersFrom).getD [] = [] := by
  cases found : (reread v).asMappingGet "triggers" with
  | none => rfl
  | some w =>
    obtain ⟨u, rfl⟩ := asMappingGet_reread found
    exact parseTriggersFrom_reread u

/-- A document that was read back has no triggers. -/
theorem collectTriggers_reread (v : Value) : collectTriggers (reread v) = [] := by
  rw [collectTriggers, triggersOf_reread, List.nil_append]
  rcases reread_shape v with ⟨s, scalar⟩ | ⟨ss, sequence⟩ | ⟨entries, mapping⟩
  · rw [scalar]
    cases s with
    | _ => rfl
  · rw [sequence]
    rfl
  · rw [mapping, Value.asMapping, Option.getD_some]
    apply List.flatMap_eq_nil_iff.mpr
    intro e mem
    obtain ⟨u, again⟩ := mem_rereadEntries mem
    rw [sectionTriggers.eq_def, again, triggersOf_reread]
    split
    · rfl
    · exact ite_self []

/-! ## One round -/

variable {load : String → Option (List Value)} {arrange : ℕ → Arrangement} {yaml : Value}

lemma passChanges_of_none {doc : Value} (plain : collectTriggers doc = []) : passChanges load doc = [] := by
  rw [passChanges, plain]
  rfl

/-- Only a document with entries has triggers. -/
lemma asMapping_of_changes (changed : passChanges load yaml ≠ []) :
    ∃ topMap, yaml.asMapping = some topMap ∧ topMap ≠ [] := by
  cases yaml with
  | mapping entries =>
    cases entries with
    | nil => exact (changed rfl).elim
    | cons e rest => exact ⟨e :: rest, rfl, List.cons_ne_nil e rest⟩
  | _ => exact (changed rfl).elim

/-- The first pass that changes something is the last one that does. -/
lemma setYamlValues_firstPass (reads : ∀ text v, readDocument text = some v → load text = some [v])
    (plain : Plain load arrange yaml) (changed : passChanges load yaml ≠ []) :
    setYamlValues load (arrange (maxIterations - 1)) yaml (passChanges load yaml) =
      afterOneRound load arrange yaml := by
  obtain ⟨topMap, isMap, nonempty⟩ := asMapping_of_changes changed
  have fine := plain changed
  rw [firstPass, isMap, Option.getD_some] at fine
  have back := setYamlValues_of_writable reads (arrange (maxIterations - 1)) nonempty (passChanges load yaml) fine
  have same : yaml = .mapping topMap := by
    cases yaml with
    | mapping entries =>
      cases isMap
      rfl
    | _ => cases isMap
  rw [afterOneRound, if_neg (by simpa using changed), firstPass, isMap, Option.getD_some, ← back, same]

variable (arrange) in
/-- Passes after one that leaves no change to make. -/
lemma settleWithin_of_quiet {doc : Value} (quiet : passChanges load doc = []) (n : ℕ) :
    settleWithin load arrange (n + 1) doc = doc ∧ StopsWithin load arrange (n + 1) doc := by
  constructor
  · rw [settleWithin, quiet]
    rfl
  · exact .inl quiet

/-- The loop ends with the document after one round. -/
lemma settle_of_plain (reads : ∀ text v, readDocument text = some v → load text = some [v])
    (plain : Plain load arrange yaml) :
    StopsWithin load arrange maxIterations yaml ∧
      resolveTriggers (settle load arrange) yaml = afterOneRound load arrange yaml := by
  rcases eq_or_ne (passChanges load yaml) [] with quiet | changed
  · obtain ⟨stays, stops⟩ := settleWithin_of_quiet arrange quiet (maxIterations - 1)
    refine ⟨stops, ?_⟩
    rw [afterOneRound, quiet, resolveTriggers]
    split
    · rfl
    · exact stays
  · have again : setYamlValues load (arrange 49) yaml (passChanges load yaml) = afterOneRound load arrange yaml :=
      setYamlValues_firstPass reads plain changed
    have quiet : passChanges load (afterOneRound load arrange yaml) = [] := by
      rw [afterOneRound, if_neg (by simpa using changed)]
      exact passChanges_of_none (collectTriggers_reread _)
    obtain ⟨stays, stops⟩ := settleWithin_of_quiet arrange quiet (maxIterations - 2)
    have triggers : (collectTriggers yaml).isEmpty = false := by
      rw [List.isEmpty_eq_false_iff]
      exact fun plain => changed (passChanges_of_none plain)
    constructor
    · refine .inr ?_
      rw [again]
      exact stops
    · rw [resolveTriggers, triggers, if_neg Bool.false_ne_true, settle, maxIterations, settleWithin,
        if_neg (by simpa using changed)]
      rw [again]
      exact stays

/-- The triggers of a YAML are settled just if one round of changes leaves none of them to apply. -/
theorem settled_iff_oneRound (load : String → Option (List Value)) (arrange : ℕ → Arrangement) (yaml : Value)
    (reads : ∀ text v, readDocument text = some v → load text = some [v]) (plain : Plain load arrange yaml) :
    TriggersSettled load arrange yaml ↔ AllApplied yaml (afterOneRound load arrange yaml) := by
  obtain ⟨stops, result⟩ := settle_of_plain reads plain
  rw [TriggersSettled, result]
  exact ⟨fun settled => settled stops, fun applied _ => applied⟩

/-! ## Chains of triggers -/

/-- A trigger that sets an option of the same game. -/
def testTrigger (name result key value : String) : Value :=
  .mapping [(.string "option_category", .string "Test"), (.string "option_name", .string name),
    (.string "option_result", .string result),
    (.string "options", .mapping [(.string "Test", .mapping [(.string key, .string value)])])]

/-- A library that reads just the plain block style. -/
def readPlain (text : String) : Option (List Value) := (readDocument text).map fun v => [v]

/-- The changes come out in the order in which they were put in. -/
def inOrder : ℕ → Arrangement := fun _ _ changes => changes

lemma readPlain_reads : ∀ text v, readDocument text = some v → readPlain text = some [v] := by
  intro text v read
  rw [readPlain, read]
  rfl

/-- The second trigger waits for what the first one sets. -/
def chainYaml : Value :=
  .mapping [
    (.string "triggers", .sequence [testTrigger "mode" "hard" "logic" "strict",
      testTrigger "logic" "strict" "hints" "off"]),
    (.string "Test", .mapping [(.string "mode", .string "hard"), (.string "logic", .string "loose"),
      (.string "hints", .string "on")])]

/-- A trigger as `testTrigger` has it. -/
def parsedTrigger (name result key value : String) : Trigger :=
  ⟨"Test", name, result, [("Test", key, .string value, false)]⟩

lemma collectTriggers_chain : collectTriggers chainYaml =
    [parsedTrigger "mode" "hard" "logic" "strict", parsedTrigger "logic" "strict" "hints" "off"] := by
  rfl

/-- One trigger, which can fire. -/
def singleYaml : Value :=
  .mapping [
    (.string "triggers", .sequence [testTrigger "mode" "hard" "logic" "strict"]),
    (.string "Test", .mapping [(.string "mode", .string "hard"), (.string "logic", .string "loose")])]

lemma collectTriggers_single :
    collectTriggers singleYaml = [parsedTrigger "mode" "hard" "logic" "strict"] := by
  rfl

/-- A trigger that nothing else waits for is settled. -/
theorem single_settled : TriggersSettled readPlain inOrder singleYaml := by
  have plain : Plain readPlain inOrder singleYaml := fun _ => by decide +kernel
  apply (settled_iff_oneRound readPlain inOrder singleYaml readPlain_reads plain).mpr
  intro t mem fires game key v option _
  refine ⟨t, mem, fires, v, option, ?_⟩
  rw [collectTriggers_single, List.mem_singleton] at mem
  rw [mem] at option
  cases List.mem_singleton.mp option
  rfl

/-- Of a chain of two triggers only the first one is applied. -/
theorem chain_not_settled : ¬ TriggersSettled readPlain inOrder chainYaml := by
  have plain : Plain readPlain inOrder chainYaml := fun _ => by decide +kernel
  obtain ⟨stops, result⟩ := settle_of_plain readPlain_reads plain
  intro settled
  have applied := settled stops
  rw [result] at applied
  have second : parsedTrigger "logic" "strict" "hints" "off" ∈ collectTriggers chainYaml := by
    rw [collectTriggers_chain]
    exact List.mem_cons_of_mem _ List.mem_cons_self
  have fires : (parsedTrigger "logic" "strict" "hints" "off").canFire (afterOneRound readPlain inOrder chainYaml) =
      true := by
    decide +kernel
  obtain ⟨t, mem, _, v, option, here⟩ :=
    applied _ second fires "Test" "hints" (.string "off") List.mem_cons_self rfl
  have stays : ((afterOneRound readPlain inOrder chainYaml).asMappingGet "Test").bind
      (fun gameSection => gameSection.asMappingGet "hints") = some (.string "on") := by
    rfl
  cases here.symm.trans stays
  rw [collectTriggers_chain] at mem
  rcases List.mem_cons.mp mem with rfl | mem
  · simp [parsedTrigger] at option
  · rw [List.mem_singleton.mp mem] at option
    simp [parsedTrigger] at option

end ArchipelagoXL.Tools
