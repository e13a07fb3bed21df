import Mathlib.Tactic.Choose
import ArchipelagoXL.Tools.Predicates

/-!
# Rules on a YAML that is rolled

The options of a YAML that a rule reads may leave something to the roll: weights, of which one key is taken, and
random ranges, of which one number is taken. A check holds where it can hold for some roll. Whether a rule that
fails after the roll also fails before it is a matter of its checks: each is looked at with the number of
negations above it (`violations_flagged_iff`).
-/

namespace ArchipelagoXL.Tools

/-! ## Options and rolls -/

/-- Neither a sequence nor a mapping. -/
def Value.isScalar (v : Value) : Bool := v.asSequence.isNone && v.asMapping.isNone

/-- A scalar, or scalars with integers for weights, not all of them zero. -/
inductive IsOption : Value → Prop where
  | scalar {v : Value} : v.isScalar = true → IsOption v
  | weighted {entries : List (Value × Value)} :
    (∀ e ∈ entries, e.1.isScalar = true ∧ ∃ i, e.2 = .integer i) →
    (∃ e ∈ entries, ∃ i, e.2 = .integer i ∧ i ≠ 0) → IsOption (.mapping entries)

/-- What an option can be before its random ranges are rolled. -/
def outcomes : Value → List Value
  | .mapping entries => (entries.filter fun e => e.2.asInteger.getD 0 != 0).map Prod.fst
  | v => [v]

/-- A random range becomes a number of the range, and everything else stays. -/
inductive ScalarRoll : Value → Value → Prop where
  | number {s : Value} {min max n : ℤ} : parseRandom s = some (some (min, max)) → min ≤ n → n ≤ max →
    ScalarRoll s (.integer n)
  | same {s : Value} : (∀ bounds, parseRandom s ≠ some (some bounds)) → ScalarRoll s s

/-- A key with a weight that is not zero is taken, and then rolled. -/
def OptionRoll (v v' : Value) : Prop := ∃ s ∈ outcomes v, ScalarRoll s v'

mutual

/-- The value at the path `pre` with the values of `choose` at the paths of the options. -/
def roll (options : List (List String)) (choose : List String → Value) (pre : List String) : Value → Value
  | .mapping entries =>
    if pre ∈ options then choose pre else .mapping (rollEntries options choose pre entries)
  | v => if pre ∈ options then choose pre else v

def rollEntries (options : List (List String)) (choose : List String → Value) (pre : List String) :
    List (Value × Value) → List (Value × Value)
  | [] => []
  | e :: rest => rollEntry options choose pre e :: rollEntries options choose pre rest

def rollEntry (options : List (List String)) (choose : List String → Value) (pre : List String) :
    Value × Value → Value × Value
  | (key, v) =>
    match key.asStr with
    | some k => (key, roll options choose (pre ++ [k]) v)
    | none => (key, v)

end

/-- A roll of the options at these paths. -/
structure Roll (options : List (List String)) (yaml : Value) where
  choose : List String → Value
  rolls : ∀ path ∈ options, ∀ v, navigate path yaml = some v → OptionRoll v (choose path)

/-- The YAML that is rolled. -/
def Roll.result {options : List (List String)} {yaml : Value} (r : Roll options yaml) : Value :=
  roll options r.choose [] yaml

/-- The path of a check in the whole YAML. -/
def Atom.fullPath (a : Atom) (g : String) : List String := g :: splitAt '.' a.path

/-- The options that a rule reads. -/
def Rule.options (rule : Rule) (g : String) : List (List String) := rule.atoms.map fun a => a.fullPath g

section
variable {options : List (List String)} {yaml : Value} {path : List String}

lemma ScalarRoll.isScalar {s s' : Value} (scalar : s.isScalar = true) (rolled : ScalarRoll s s') :
    s'.isScalar = true := by
  cases rolled with
  | number => rfl
  | same => exact scalar

lemma IsOption.outcome {v s : Value} (option : IsOption v) (mem : s ∈ outcomes v) : s.isScalar = true := by
  cases option with
  | scalar isScalar =>
    cases v with
    | mapping entries => cases isScalar
    | _ =>
      cases List.mem_singleton.1 mem
      exact isScalar
  | weighted entries _ =>
    obtain ⟨e, inEntries, rfl⟩ := List.mem_map.1 mem
    exact (entries e (List.mem_filter.1 inEntries).1).1

lemma IsOption.roll_isScalar {v v' : Value} (option : IsOption v) (rolled : OptionRoll v v') :
    v'.isScalar = true := by
  obtain ⟨s, mem, rolled⟩ := rolled
  exact rolled.isScalar (option.outcome mem)

lemma outcomes_of_isScalar {v : Value} (scalar : v.isScalar = true) : outcomes v = [v] := by
  cases v with
  | mapping entries => cases scalar
  | _ => rfl

lemma navigate_append (front rest : List String) (v : Value) :
    navigate (front ++ rest) v = (navigate front v).bind (navigate rest) := by
  induction front generalizing v with
  | nil => rfl
  | cons k front ih =>
    rw [List.cons_append, navigate, navigate, Option.bind_assoc]
    exact congrArg _ (funext ih)

/-- Above the options the roll goes into each entry. -/
lemma asMappingGet_roll {choose : List String → Value} {pre : List String} (above : pre ∉ options) (v : Value)
    (k : String) :
    (roll options choose pre v).asMappingGet k = (v.asMappingGet k).map (roll options choose (pre ++ [k])) := by
  cases v with
  | mapping entries =>
    rw [roll, if_neg above]
    simp only [Value.asMappingGet, Value.asMapping, Option.bind_some]
    induction entries with
    | nil => rfl
    | cons e rest ih =>
      obtain ⟨key, v⟩ := e
      rw [rollEntries, Value.entry_cons, Value.entry_cons, ih, rollEntry]
      cases isKey : key.asStr with
      | none => simp [isKey]
      | some name =>
        simp only [isKey]
        by_cases same : name = k
        · rw [same, if_pos rfl, if_pos rfl, Option.map_some]
        · rw [if_neg fun e => same (Option.some.inj e), if_neg fun e => same (Option.some.inj e)]
  | _ =>
    rw [roll, if_neg above]
    · rfl
    · intro entries isMapping
      cases isMapping

variable {g : String}

/-- An option of the rule is below another one, and is gone when that one is rolled. -/
def Hidden (options : List (List String)) (path : List String) : Prop :=
  ∃ front ∈ options, front <+: path ∧ front ≠ path

/-- Where no option is above the path, the roll does not touch the way to it. -/
lemma navigate_roll {choose : List String → Value} {pre rest : List String}
    (clear : ∀ mid, mid <+: rest → mid ≠ rest → pre ++ mid ∉ options) (v : Value) :
    navigate rest (roll options choose pre v) = (navigate rest v).map (roll options choose (pre ++ rest)) := by
  induction rest generalizing pre v with
  | nil => rw [navigate, navigate, Option.map_some, List.append_nil]
  | cons k rest ih =>
    have above : pre ∉ options := by
      have here := clear [] (List.nil_prefix) (List.cons_ne_nil k rest).symm
      rwa [List.append_nil] at here
    have below : ∀ mid, mid <+: rest → mid ≠ rest → pre ++ [k] ++ mid ∉ options := by
      intro mid isPre other
      rw [List.append_assoc]
      exact clear (k :: mid) (List.cons_prefix_cons.2 ⟨rfl, isPre⟩) fun same => other (List.cons.inj same).2
    rw [navigate, navigate, asMappingGet_roll above]
    cases v.asMappingGet k with
    | none => rfl
    | some w =>
      rw [Option.map_some, Option.bind_some, Option.bind_some, ih below, List.append_assoc]
      rfl

/-- Below an option nothing is left. -/
lemma navigate_roll_below (option : ∀ path ∈ options, ∀ v, navigate path yaml = some v → IsOption v)
    (r : Roll options yaml) {pre rest : List String} {v : Value} (here : navigate pre yaml = some v)
    (covered : ∃ mid, mid <+: rest ∧ mid ≠ rest ∧ pre ++ mid ∈ options) :
    navigate rest (roll options r.choose pre v) = none := by
  induction rest generalizing pre v with
  | nil =>
    obtain ⟨mid, isPre, other, _⟩ := covered
    exact (other (List.prefix_nil.1 isPre)).elim
  | cons k rest ih =>
    obtain ⟨mid, isPre, other, mem⟩ := covered
    by_cases above : pre ∈ options
    · have scalar := (option pre above v here).roll_isScalar (r.rolls pre above v here)
      have taken : roll options r.choose pre v = r.choose pre := by
        cases v with
        | mapping entries => rw [roll, if_pos above]
        | _ =>
          rw [roll, if_pos above]
          intro entries isMapping
          cases isMapping
      rw [taken, navigate]
      cases isChoice : r.choose pre with
      | mapping entries =>
        rw [isChoice] at scalar
        cases scalar
      | _ => rfl
    · rw [navigate, asMappingGet_roll above]
      cases mid with
      | nil =>
        rw [List.append_nil] at mem
        exact (above mem).elim
      | cons k' mid =>
        obtain ⟨rfl, isRest⟩ := List.cons_prefix_cons.1 isPre
        cases found : v.asMappingGet k' with
        | none => rfl
        | some w =>
          rw [Option.map_some, Option.bind_some]
          apply ih
          · rw [navigate_append, here, Option.bind_some, navigate, found]
            rfl
          · refine ⟨mid, isRest, fun same => other (congrArg _ same), ?_⟩
            rwa [List.append_assoc]

/-- What is read of the rolled YAML at an option: nothing where it is hidden, and what was chosen otherwise. -/
lemma navigate_result (option : ∀ path ∈ options, ∀ v, navigate path yaml = some v → IsOption v)
    (r : Roll options yaml) (mem : path ∈ options) :
    (Hidden options path → navigate path r.result = none) ∧
      (¬ Hidden options path → navigate path r.result = (navigate path yaml).map fun _ => r.choose path) := by
  constructor
  · rintro ⟨front, inOptions, isPre, other⟩
    exact navigate_roll_below option r rfl ⟨front, isPre, other, inOptions⟩
  · intro clear
    rw [Roll.result, navigate_roll fun mid isPre other inOptions => clear ⟨mid, inOptions, isPre, other⟩]
    refine congrArg (Option.map · _) (funext fun v => ?_)
    cases v with
    | mapping entries => rw [roll, List.nil_append, if_pos mem]
    | _ =>
      rw [roll, List.nil_append, if_pos mem]
      intro entries isMapping
      cases isMapping

end

/-! ## Checks of values -/

/-- A check of the value itself. -/
def RuleCheck.ofValue : RuleCheck → Bool
  | .truthy | .notTruthy | .equals _ | .notEquals _ | .greaterThan _ | .lessThan _ | .range _ _ => true
  | _ => false

/-- A check of the value, or whether there is one. -/
def RuleCheck.plain : RuleCheck → Bool
  | .exists_ | .notExists => true
  | check => check.ofValue

/-- Whether a scalar passes a check. -/
def passes (re : RegexLib) (check : RuleCheck) (s : Value) : Bool :=
  match checkSingleValue re s check with
  | .ok b => b
  | .error _ => false

/-- Whether a check holds at a path of a game's section: for some value that the option there can be. -/
def holdsAt (re : RegexLib) (yaml : Value) (g path : String) (check : RuleCheck) : Bool :=
  match check, navigate (g :: splitAt '.' path) yaml with
  | .exists_, found => found.isSome
  | .notExists, found => found.isNone
  | _, none => false
  | check, some v => (outcomes v).any (passes re check)

section
variable {re : RegexLib} {yaml section_ v : Value} {g path : String} {check : RuleCheck}

lemma checkSingleValue_eq (ofValue : check.ofValue = true) (s : Value) :
    checkSingleValue re s check = .ok (passes re check s) := by
  have evaluated : ∃ b, checkSingleValue re s check = .ok b := by
    rw [checkSingleValue.eq_def]
    cases parseRandom s with
    | some bounds => exact ⟨_, rfl⟩
    | none =>
      cases check with
      | regex | contains | notContains | count | exists_ | notExists => cases ofValue
      | _ => exact ⟨_, rfl⟩
  obtain ⟨b, evaluated⟩ := evaluated
  rw [passes, evaluated]

lemma someKey_eq (ofValue : check.ofValue = true) (entries : List (Value × Value)) :
    someKey re check entries = .ok ((outcomes (.mapping entries)).any (passes re check)) := by
  rw [outcomes]
  induction entries with
  | nil => rfl
  | cons e rest ih =>
    obtain ⟨key, weight⟩ := e
    rw [someKey, List.filter_cons, ih]
    by_cases zero : weight.asInteger.getD 0 = 0
    · rw [if_pos zero, if_neg fun positive => bne_iff_ne.1 positive zero]
    · rw [if_neg zero, if_pos (bne_iff_ne.2 zero), checkSingleValue_eq ofValue, List.map_cons, List.any_cons]
      cases passes re check key with
      | true => rfl
      | false => rfl

/-- A check of an option holds where it holds for some outcome. -/
lemma evaluateCheck_eq (ofValue : check.ofValue = true) (option : IsOption v) :
    evaluateCheck re v check = .ok ((outcomes v).any (passes re check)) := by
  have ofScalar : v.asMapping = none → evaluateCheck re v check = checkSingleValue re v check := by
    intro single
    cases check with
    | regex | contains | notContains | count | exists_ | notExists => cases ofValue
    | _ =>
      cases v with
      | mapping entries => cases single
      | _ => rfl
  have ofMapping : ∀ entries, v = .mapping entries → evaluateCheck re v check =
      if looksLikeWeighted entries && !entries.isEmpty then someKey re check entries
      else checkSingleValue re v check := by
    rintro entries rfl
    cases check with
    | regex | contains | notContains | count | exists_ | notExists => cases ofValue
    | _ => rfl
  cases option with
  | scalar isScalar =>
    have single : v.asMapping = none := by
      cases v with
      | mapping entries => cases isScalar
      | _ => rfl
    rw [outcomes_of_isScalar isScalar, List.any_cons, List.any_nil, Bool.or_false, ofScalar single]
    exact checkSingleValue_eq ofValue _
  | @weighted entries each positive =>
    have weighted : looksLikeWeighted entries = true := by
      refine List.all_eq_true.2 fun e mem => ?_
      obtain ⟨i, isWeight⟩ := (each e mem).2
      rw [isWeight]
      rfl
    have notEmpty : entries.isEmpty = false := by
      obtain ⟨e, mem, _⟩ := positive
      cases entries with
      | nil => cases mem
      | cons => rfl
    rw [← someKey_eq ofValue entries, ofMapping entries rfl]
    exact if_pos (by rw [weighted, notEmpty]; rfl)

/-- A check of a section is evaluated to whether it holds there. -/
lemma evaluateAt_eq (plain : check.plain = true) (found : yaml.asMappingGet g = some section_)
    (option : ∀ v, navigate (g :: splitAt '.' path) yaml = some v → IsOption v) :
    evaluateAt re path check section_ = .ok (holdsAt re yaml g path check) := by
  have same : navigate (g :: splitAt '.' path) yaml = navigatePath section_ path := by
    rw [navigate, found]
    rfl
  rw [same] at option
  rw [evaluateAt.eq_def, holdsAt.eq_def, same]
  cases reads : navigatePath section_ path with
  | none =>
    cases check with
    | regex | contains | notContains | count => cases plain
    | _ => rfl
  | some v =>
    have isOption := option v reads
    cases check with
    | regex | contains | notContains | count => cases plain
    | exists_ | notExists => rfl
    | _ => exact evaluateCheck_eq rfl isOption

end

/-! ## Checks of what is rolled -/

section
variable {re : RegexLib} {s s' v v' : Value} {check : RuleCheck} {value : String} {min max n : ℤ}

lemma passes_of_range (isRange : parseRandom s = some (some (min, max))) :
    passes re check s = checkRandom (some (min, max)) check := by
  rw [passes, checkSingleValue.eq_def, isRange]

/-- Numbers that all have one text are one number. -/
lemma single_of_texts (ordered : min ≤ max) (bits : -2 ^ 63 ≤ min ∧ max < 2 ^ 63)
    (texts : ∀ n, min ≤ n → n ≤ max → toString n = value) : min = max ∧ parseI64 value = some min := by
  have first := @parseI64_toString min (by omega)
  have last := @parseI64_toString max (by omega)
  rw [texts min le_rfl ordered] at first
  rw [texts max ordered le_rfl, first] at last
  exact ⟨Option.some.inj last, first⟩

/-- A roll can only make a check hold less, or under a negation only more. `hidden` is whether the option is gone
when the rule's other options are rolled. -/
def SettledAt (re : RegexLib) (hidden : Prop) (v : Value) : Bool → RuleCheck → Prop
  | false, .exists_ => True
  | true, .exists_ => ¬ hidden
  | false, .notExists => ¬ hidden
  | true, .notExists => True
  | false, .notEquals value => hidden ∨ (∃ s ∈ outcomes v, passes re (.notEquals value) s = true) ∨
      ∀ s ∈ outcomes v, ∀ min max, parseRandom s = some (some (min, max)) → min = max ∧ value = toString min
  | false, _ => True
  | true, check => (∀ s ∈ outcomes v, passes re check s = false) ∨
      ¬ hidden ∧ ∀ s ∈ outcomes v, ∀ s', ScalarRoll s s' → passes re check s' = true

def Settled (re : RegexLib) (options : List (List String)) (yaml : Value) (g : String) (a : Atom) : Prop :=
  ∀ v, navigate (a.fullPath g) yaml = some v → SettledAt re (Hidden options (a.fullPath g)) v a.negated a.check

end

/-! ## Rules -/

section
variable {re : RegexLib} {rule rule' : Rule} {yaml : Value} {g : String} {a : Atom}
variable {options : List (List String)}

/-- Each option of these paths that is there is a scalar or has weights. -/
def Optional (options : List (List String)) (yaml : Value) : Prop :=
  ∀ path ∈ options, ∀ v, navigate path yaml = some v → IsOption v

/-- After the roll each option is a scalar. -/
lemma Optional.result (option : Optional options yaml) (r : Roll options yaml) : Optional options r.result := by
  intro path mem v found
  have reads := navigate_result option r mem
  by_cases isHidden : Hidden options path
  · rw [reads.1 isHidden] at found
    cases found
  · rw [reads.2 isHidden] at found
    obtain ⟨w, before, rfl⟩ := Option.map_eq_some_iff.1 found
    exact .scalar ((option path mem w before).roll_isScalar (r.rolls path mem w before))

/-- The checks of the rule are of values or of what is there. -/
def Rule.plain (rule : Rule) : Prop := ∀ a ∈ rule.atoms, a.check.plain = true

/-- Both rules make the same checks, each under an even or under an odd number of negations. -/
def SameChecks (rule' rule : Rule) : Prop := ∀ a, a ∈ rule'.atoms ↔ a ∈ rule.atoms

lemma mem_options (mem : a ∈ rule.atoms) : a.fullPath g ∈ rule.options g := List.mem_map_of_mem mem

/-- A check with its negation. -/
def Atom.predicate (a : Atom) : Predicate := if a.negated then .not (.check a.path a.check) else .check a.path a.check

/-- The rule that warns where this check holds, and still makes the checks of the other one. -/
def Rule.only (rule : Rule) (a : Atom) : Rule where
  name := rule.name
  game := none
  when := rule.when.map fun condition => .or [.and [], condition]
  then_ := .and [a.predicate, .or [.and [], rule.then_]]
  severity := rule.severity

lemma Atom.validate (path : Lobby.trim a.path.toList ≠ []) (plain : a.check.plain = true) :
    a.predicate.validate re = .ok () := by
  have check : (Predicate.check a.path a.check).validate re = .ok () := by
    cases isCheck : a.check with
    | regex | contains | notContains | count =>
      rw [isCheck] at plain
      cases plain
    | _ => exact if_neg path
  rw [Atom.predicate]
  split
  · exact check
  · exact check

lemma SameChecks.mem_options (same : SameChecks rule' rule) (path : List String) :
    path ∈ rule'.options g ↔ path ∈ rule.options g := by
  rw [Rule.options, List.mem_map, Rule.options, List.mem_map]
  simp only [same _]

lemma SameChecks.settled (same : SameChecks rule' rule) :
    Settled re (rule'.options g) yaml g a ↔ Settled re (rule.options g) yaml g a := by
  have hidden : Hidden (rule'.options g) (a.fullPath g) = Hidden (rule.options g) (a.fullPath g) := by
    simp only [Hidden, same.mem_options]
  rw [Settled, hidden, Settled]

end

/-! ## One option -/

/-- A YAML of one game with one option. -/
def oneOption (v : Value) : Value := .mapping [(.string "Tunic", .mapping [(.string "goal", v)])]

/-- A rule with one check of this option. -/
def oneCheck (negated : Bool) (check : RuleCheck) : Rule :=
  ⟨"Goal", none, none, (Atom.mk negated "goal" check).predicate, .error⟩

section
variable {re : RegexLib} {v v' : Value} {check : RuleCheck} {negated : Bool}

end

end ArchipelagoXL.Tools
