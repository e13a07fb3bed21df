import ArchipelagoXL.Tools.Meaning

/-!
# Accepted rules

Whether a rule that was accepted can be evaluated. No branch that is marked as unreachable is reached
(`evaluatePredicate_strict`), whatever the rule. But a pattern is accepted up to the limit of the library and built
with a lower one, so a rule fails to evaluate exactly where it comes to a pattern between the two
(`canBeEvaluated_iff`).
-/

namespace ArchipelagoXL.Tools

/-! ## Evaluation that stops where it should not come -/

/-- Why an evaluation stops: a pattern does not compile, or a branch is reached that is marked as unreachable. -/
inductive Stop where
  | error (e : String)
  | unreachable

namespace Strict

def checkRandom : Option (ℤ × ℤ) → RuleCheck → Except Stop Bool
  | some _, .exists_ | some _, .notExists => .error .unreachable
  | bounds, check => .ok (Tools.checkRandom bounds check)

def checkSingleValue (re : RegexLib) (val : Value) (check : RuleCheck) : Except Stop Bool :=
  match parseRandom val with
  | some bounds => checkRandom bounds check
  | none =>
    match check with
    | .count _ | .exists_ | .notExists => .error .unreachable
    | check => (Tools.checkSingleValue re val check).mapError .error

def someKey (re : RegexLib) (check : RuleCheck) : List (Value × Value) → Except Stop Bool
  | [] => .ok false
  | (key, weight) :: rest =>
    if weight.asInteger.getD 0 = 0 then someKey re check rest
    else do
      if ← checkSingleValue re key check then return true
      someKey re check rest

def evaluateCheck (re : RegexLib) (val : Value) (check : RuleCheck) : Except Stop Bool :=
  match check with
  | .count inner =>
    match val.asSequence, val.asMapping with
    | some items, _ => .ok (evaluateCountCheck items.length inner)
    | none, some entries => .ok (evaluateCountCheck entries.length inner)
    | none, none => .ok false
  | .contains _ | .notContains _ => checkSingleValue re val check
  | _ =>
    match val.asMapping with
    | some entries =>
      if looksLikeWeighted entries && !entries.isEmpty then someKey re check entries
      else checkSingleValue re val check
    | none => checkSingleValue re val check

def evaluateAt (re : RegexLib) (path : String) (check : RuleCheck) (gameYaml : Value) : Except Stop Bool :=
  match check, navigatePath gameYaml path with
  | .exists_, found => .ok found.isSome
  | .notExists, found => .ok found.isNone
  | .notContains _, none => .ok true
  | _, none => .ok false
  | check, some val => evaluateCheck re val check

mutual

def evaluatePredicate (re : RegexLib) (gameYaml : Value) : Predicate → Except Stop Bool
  | .check path check => evaluateAt re path check gameYaml
  | .and predicates => allHold re gameYaml predicates
  | .or predicates => someHolds re gameYaml predicates
  | .not predicate => do return !(← evaluatePredicate re gameYaml predicate)
  | .atLeast count predicates => enoughHold re gameYaml count 0 predicates

def allHold (re : RegexLib) (gameYaml : Value) : List Predicate → Except Stop Bool
  | [] => .ok true
  | p :: ps => do
    if !(← evaluatePredicate re gameYaml p) then return false
    allHold re gameYaml ps

def someHolds (re : RegexLib) (gameYaml : Value) : List Predicate → Except Stop Bool
  | [] => .ok false
  | p :: ps => do
    if ← evaluatePredicate re gameYaml p then return true
    someHolds re gameYaml ps

def enoughHold (re : RegexLib) (gameYaml : Value) (count : ℕ) : ℕ → List Predicate → Except Stop Bool
  | _, [] => .ok false
  | matched, p :: ps => do
    if ← evaluatePredicate re gameYaml p then
      if count ≤ matched + 1 then return true
      enoughHold re gameYaml count (matched + 1) ps
    else enoughHold re gameYaml count matched ps

end

/-- What a predicate gives to its rule, unless it does not return. -/
def outcomeOf : Except Stop Bool → Option (Except String Bool)
  | .ok b => some (.ok b)
  | .error (.error e) => some (.error e)
  | .error .unreachable => none

/-- Nothing where a branch is reached that is marked as unreachable. -/
def evaluateRule (re : RegexLib) (rule : Rule) (yaml : Value) (gameName : String) : Option RuleResult :=
  if rule.game.any (· != gameName) then some (rule.result .skipped none)
  else
    match yaml.asMappingGet gameName with
    | none => some (rule.result .notPresent (some ("Game section '" ++ gameName ++ "' not found")))
    | some gameYaml =>
      let thenResult := (outcomeOf (evaluatePredicate re gameYaml rule.then_)).map fun
        | .ok true => rule.result .fail none
        | .ok false => rule.result .pass none
        | .error e => rule.result .error (some ("Error evaluating rule: " ++ e))
      match rule.when with
      | none => thenResult
      | some condition =>
        (outcomeOf (evaluatePredicate re gameYaml condition)).bind fun
          | .ok true => thenResult
          | .ok false => some (rule.result .skipped none)
          | .error e => some (rule.result .error (some ("Error evaluating condition: " ++ e)))

end Strict

/-- The rule is evaluated to a result that is no error. -/
def CanBeEvaluated (re : RegexLib) (rule : Rule) (yaml : Value) (gameName : String) : Prop :=
  ∃ result, Strict.evaluateRule re rule yaml gameName = some result ∧ result.outcome ≠ .error

/-! ## Limits -/

/-- The size that a pattern may have unless another limit is set. -/
def defaultSizeLimit : ℕ := 10 * 2 ^ 20

def regexSizeLimit : ℕ := 1000000

/-- A pattern compiles just if it has a size, and this size is within the limit. -/
structure Sized (re : RegexLib) (size : String → Option ℕ) : Prop where
  valid : ∀ pattern, re.valid pattern = true ↔ ∃ n, size pattern = some n ∧ n ≤ defaultSizeLimit
  build : ∀ pattern, (∃ isMatch, re.build pattern = .ok isMatch) ↔ ∃ n, size pattern = some n ∧ n ≤ regexSizeLimit

/-- A pattern that is accepted and does not compile when it is needed. -/
def TooLarge (size : String → Option ℕ) (pattern : String) : Prop :=
  ∃ n, size pattern = some n ∧ regexSizeLimit < n ∧ n ≤ defaultSizeLimit

/-! ## Patterns that are needed -/

/-- To match a value, the pattern is needed: the value, or the first key that is switched on, is no random one. -/
def needsPattern (v : Value) : Bool :=
  match weights v with
  | some entries => (entries.find? fun e => e.2.asInteger.getD 0 != 0).any fun e => (parseRandom e.1).isNone
  | none => (parseRandom v).isNone

/-- The evaluation of a predicate comes to a pattern, unless it stops at an earlier one. -/
inductive ComesTo (re : RegexLib) (w : Value) : Predicate → String → Prop
  | check {path pattern v} : navigatePath w path = some v → needsPattern v = true →
    ComesTo re w (.check path (.regex pattern)) pattern
  | and {before p after pattern} : (∀ q ∈ before, q.meaning (leaf re w) = true) → ComesTo re w p pattern →
    ComesTo re w (.and (before ++ p :: after)) pattern
  | or {before p after pattern} : (∀ q ∈ before, q.meaning (leaf re w) = false) → ComesTo re w p pattern →
    ComesTo re w (.or (before ++ p :: after)) pattern
  | not {p pattern} : ComesTo re w p pattern → ComesTo re w (.not p) pattern
  | atLeast {count before p after pattern} : (meaningEach (leaf re w) before).count true < count →
    ComesTo re w p pattern → ComesTo re w (.atLeast count (before ++ p :: after)) pattern

/-- The rule applies to the game, and its condition or, where this holds, what it warns of comes to a pattern that is
too large. -/
def ComesToTooLarge (re : RegexLib) (size : String → Option ℕ) (rule : Rule) (yaml : Value) (gameName : String) :
    Prop :=
  (∀ game, rule.game = some game → game = gameName) ∧ ∃ w, yaml.asMappingGet gameName = some w ∧
    ((∃ condition pattern, rule.when = some condition ∧ ComesTo re w condition pattern ∧ TooLarge size pattern) ∨
      (∀ condition, rule.when = some condition → condition.meaning (leaf re w) = true) ∧
        ∃ pattern, ComesTo re w rule.then_ pattern ∧ TooLarge size pattern)

/-! ## No branch is reached that should not be -/

namespace Strict

section
variable {re : RegexLib} {w v : Value} {check : RuleCheck}

lemma checkSingleValue_eq (single : check.ofSingle = true) (v : Value) :
    checkSingleValue re v check = (Tools.checkSingleValue re v check).mapError .error := by
  rw [checkSingleValue.eq_def]
  cases random : parseRandom v with
  | none =>
    cases check with
    | count | exists_ | notExists => cases single
    | _ => rfl
  | some bounds =>
    rw [Tools.checkSingleValue.eq_def, random]
    cases check with
    | count | exists_ | notExists => cases single
    | _ =>
      cases bounds with
      | _ => rfl

lemma someKey_eq (single : check.ofSingle = true) (entries : List (Value × Value)) :
    someKey re check entries = (Tools.someKey re check entries).mapError .error := by
  induction entries with
  | nil => rfl
  | cons e rest ih =>
    obtain ⟨key, weight⟩ := e
    rw [someKey, Tools.someKey, ih, checkSingleValue_eq single]
    split
    · rfl
    · cases Tools.checkSingleValue re key check with
      | error e => rfl
      | ok b =>
        cases b with
        | _ => rfl

lemma evaluateCheck_eq (present : check ≠ .exists_ ∧ check ≠ .notExists) (v : Value) :
    evaluateCheck re v check = (Tools.evaluateCheck re v check).mapError .error := by
  have single := fun ofSingle => @checkSingleValue_eq re check ofSingle
  have keys := fun ofSingle => @someKey_eq re check ofSingle
  cases check with
  | exists_ => exact (present.1 rfl).elim
  | notExists => exact (present.2 rfl).elim
  | count inner =>
    cases v with
    | _ => rfl
  | contains value => exact single rfl v
  | notContains value => exact single rfl v
  | _ =>
    rw [evaluateCheck.eq_def, Tools.evaluateCheck.eq_def]
    cases v.asMapping with
    | none => exact single rfl v
    | some entries =>
      dsimp only
      split
      · exact keys rfl entries
      · exact single rfl v

lemma evaluateAt_eq (path : String) :
    evaluateAt re path check w = (Tools.evaluateAt re path check w).mapError .error := by
  have there := fun present => @evaluateCheck_eq re check present
  rw [evaluateAt.eq_def, Tools.evaluateAt.eq_def]
  cases navigatePath w path with
  | none =>
    cases check with
    | _ => rfl
  | some v =>
    cases check with
    | exists_ | notExists => rfl
    | _ => exact there ⟨by simp, by simp⟩ v

lemma allHold_eq {ps : List Predicate}
    (each : ∀ p ∈ ps, evaluatePredicate re w p = (Tools.evaluatePredicate re w p).mapError .error) :
    allHold re w ps = (Tools.allHold re w ps).mapError .error := by
  induction ps with
  | nil => rfl
  | cons p ps ih =>
    obtain ⟨here, there⟩ := List.forall_mem_cons.mp each
    rw [allHold, Tools.allHold, here, ih there]
    cases Tools.evaluatePredicate re w p with
    | error e => rfl
    | ok b =>
      cases b with
      | _ => rfl

lemma someHolds_eq {ps : List Predicate}
    (each : ∀ p ∈ ps, evaluatePredicate re w p = (Tools.evaluatePredicate re w p).mapError .error) :
    someHolds re w ps = (Tools.someHolds re w ps).mapError .error := by
  induction ps with
  | nil => rfl
  | cons p ps ih =>
    obtain ⟨here, there⟩ := List.forall_mem_cons.mp each
    rw [someHolds, Tools.someHolds, here, ih there]
    cases Tools.evaluatePredicate re w p with
    | error e => rfl
    | ok b =>
      cases b with
      | _ => rfl

lemma enoughHold_eq {ps : List Predicate}
    (each : ∀ p ∈ ps, evaluatePredicate re w p = (Tools.evaluatePredicate re w p).mapError .error)
    (count matched : ℕ) :
    enoughHold re w count matched ps = (Tools.enoughHold re w count matched ps).mapError .error := by
  induction ps generalizing matched with
  | nil => rfl
  | cons p ps ih =>
    obtain ⟨here, there⟩ := List.forall_mem_cons.mp each
    rw [enoughHold, Tools.enoughHold, here, ih there, ih there]
    cases Tools.evaluatePredicate re w p with
    | error e => rfl
    | ok b =>
      cases b with
      | false => rfl
      | true =>
        simp only [Except.mapError, bind, Except.bind, pure, Except.pure, if_true]
        split
        · rfl
        · rfl

/-- No predicate comes to a branch that is marked as unreachable. -/
theorem evaluatePredicate_strict (p : Predicate) :
    evaluatePredicate re w p = (Tools.evaluatePredicate re w p).mapError .error := by
  induction p using Predicate.ind with
  | check path check => exact evaluateAt_eq path
  | and ps ih =>
    rw [evaluatePredicate, Tools.evaluatePredicate]
    exact allHold_eq ih
  | or ps ih =>
    rw [evaluatePredicate, Tools.evaluatePredicate]
    exact someHolds_eq ih
  | not p ih =>
    rw [evaluatePredicate, Tools.evaluatePredicate, ih]
    cases Tools.evaluatePredicate re w p with
    | _ => rfl
  | atLeast count ps ih =>
    rw [evaluatePredicate, Tools.evaluatePredicate]
    exact enoughHold_eq ih count 0

end

end Strict

/-! ## Evaluation without errors -/

section
variable {re : RegexLib} {size : String → Option ℕ} {w v : Value} {p : Predicate} {check : RuleCheck} {b : Bool}

lemma someKey_ok {entries : List (Value × Value)} (evaluated : someKey re check entries = .ok b) :
    (entries.any fun e => e.2.asInteger.getD 0 != 0 && passes re check e.1) = b := by
  induction entries with
  | nil =>
    cases evaluated
    rfl
  | cons e rest ih =>
    obtain ⟨key, weight⟩ := e
    rw [someKey] at evaluated
    rw [List.any_cons]
    by_cases zero : weight.asInteger.getD 0 = 0
    · rw [if_pos zero] at evaluated
      rw [bne_eq_false_iff_eq.mpr zero, Bool.false_and, Bool.false_or, ih evaluated]
    · rw [if_neg zero] at evaluated
      rw [bne_iff_ne.mpr zero, Bool.true_and, passes]
      cases here : checkSingleValue re key check with
      | error e =>
        rw [here] at evaluated
        cases evaluated
      | ok holds =>
        rw [here] at evaluated
        cases holds with
        | true =>
          cases evaluated
          rfl
        | false => exact ih evaluated

lemma evaluateAt_ok {path : String} (evaluated : evaluateAt re path check w = .ok b) : leaf re w path check = b := by
  -- only a check of a pattern can fail
  have other : (∀ pattern, check ≠ .regex pattern) → leaf re w path check = b := by
    intro noPattern
    rw [evaluateAt_of_compiles fun pattern isPattern => (noPattern pattern isPattern).elim] at evaluated
    exact Except.ok.inj evaluated
  cases check with
  | regex pattern =>
    rw [evaluateAt.eq_def] at evaluated
    rw [leaf.eq_def]
    cases found : navigatePath w path with
    | none =>
      rw [found] at evaluated
      exact Except.ok.inj evaluated
    | some v =>
      rw [found] at evaluated
      have single : checkSingleValue re v (.regex pattern) = .ok b → passes re (.regex pattern) v = b := by
        intro evaluated
        rw [passes, evaluated]
      have evaluated : evaluateCheck re v (.regex pattern) = .ok b := evaluated
      change holdsOf re (.regex pattern) v = b
      rw [evaluateCheck_of_keys rfl rfl] at evaluated
      rw [holdsOf_eq rfl, weights]
      cases isMap : v.asMapping with
      | none =>
        rw [isMap] at evaluated
        exact single evaluated
      | some entries =>
        rw [isMap, Option.elim_some] at evaluated
        rw [Option.filter_some]
        split at evaluated
        case isTrue weighted =>
          rw [if_pos weighted]
          exact someKey_ok evaluated
        case isFalse unweighted =>
          rw [if_neg unweighted]
          exact single evaluated
  | _ => exact other fun pattern => by simp

lemma allHold_ok {ps : List Predicate}
    (each : ∀ p ∈ ps, ∀ b, evaluatePredicate re w p = .ok b → p.denote (leaf re w) = b)
    (evaluated : allHold re w ps = .ok b) : (denoteEach (leaf re w) ps).all id = b := by
  induction ps with
  | nil =>
    cases evaluated
    rfl
  | cons p ps ih =>
    obtain ⟨here, there⟩ := List.forall_mem_cons.mp each
    rw [allHold] at evaluated
    cases first : evaluatePredicate re w p with
    | error e =>
      rw [first] at evaluated
      cases evaluated
    | ok holds =>
      rw [first] at evaluated
      rw [denoteEach, List.all_cons, here holds first]
      cases holds with
      | false =>
        cases evaluated
        rfl
      | true => exact ih there evaluated

lemma someHolds_ok {ps : List Predicate}
    (each : ∀ p ∈ ps, ∀ b, evaluatePredicate re w p = .ok b → p.denote (leaf re w) = b)
    (evaluated : someHolds re w ps = .ok b) : (denoteEach (leaf re w) ps).any id = b := by
  induction ps with
  | nil =>
    cases evaluated
    rfl
  | cons p ps ih =>
    obtain ⟨here, there⟩ := List.forall_mem_cons.mp each
    rw [someHolds] at evaluated
    cases first : evaluatePredicate re w p with
    | error e =>
      rw [first] at evaluated
      cases evaluated
    | ok holds =>
      rw [first] at evaluated
      rw [denoteEach, List.any_cons, here holds first]
      cases holds with
      | true =>
        cases evaluated
        rfl
      | false => exact ih there evaluated

lemma enoughHold_ok {ps : List Predicate}
    (each : ∀ p ∈ ps, ∀ b, evaluatePredicate re w p = .ok b → p.denote (leaf re w) = b) {count matched : ℕ}
    (less : matched < max count 1) (evaluated : enoughHold re w count matched ps = .ok b) :
    decide (max count 1 ≤ matched + (denoteEach (leaf re w) ps).count true) = b := by
  induction ps generalizing matched with
  | nil =>
    cases evaluated
    rw [denoteEach, List.count_nil, Nat.add_zero, decide_eq_false (Nat.not_le.2 less)]
  | cons p ps ih =>
    obtain ⟨here, there⟩ := List.forall_mem_cons.mp each
    rw [enoughHold] at evaluated
    cases first : evaluatePredicate re w p with
    | error e =>
      rw [first] at evaluated
      cases evaluated
    | ok holds =>
      rw [first] at evaluated
      rw [denoteEach, here holds first]
      cases holds with
      | false => exact ih there less evaluated
      | true =>
        rw [List.count_cons_self]
        by_cases last : count ≤ matched + 1
        · have stops : (if count ≤ matched + 1 then pure true else enoughHold re w count (matched + 1) ps) =
              Except.ok b := evaluated
          rw [if_pos last] at stops
          cases stops
          exact decide_eq_true (by omega)
        · have goesOn : (if count ≤ matched + 1 then pure true else enoughHold re w count (matched + 1) ps) =
              Except.ok b := evaluated
          rw [if_neg last] at goesOn
          have later := ih there (by omega) goesOn
          rwa [Nat.add_right_comm, Nat.add_assoc] at later

/-- What a predicate evaluates to is what it means. -/
lemma denote_of_ok (evaluated : evaluatePredicate re w p = .ok b) : p.denote (leaf re w) = b := by
  induction p using Predicate.ind generalizing b with
  | check path check =>
    rw [evaluatePredicate] at evaluated
    exact evaluateAt_ok evaluated
  | and ps ih =>
    rw [evaluatePredicate] at evaluated
    rw [Predicate.denote]
    exact allHold_ok (fun p mem b => ih p mem) evaluated
  | or ps ih =>
    rw [evaluatePredicate] at evaluated
    rw [Predicate.denote]
    exact someHolds_ok (fun p mem b => ih p mem) evaluated
  | not p ih =>
    rw [evaluatePredicate] at evaluated
    rw [Predicate.denote]
    cases first : evaluatePredicate re w p with
    | error e =>
      rw [first] at evaluated
      cases evaluated
    | ok holds =>
      rw [first] at evaluated
      rw [ih first]
      exact Except.ok.inj evaluated
  | atLeast count ps ih =>
    rw [evaluatePredicate] at evaluated
    have enough := enoughHold_ok (fun p mem b => ih p mem) (by omega) evaluated
    rw [Nat.zero_add] at enough
    exact enough

end

/-! ## Errors -/

section
variable {re : RegexLib} {size : String → Option ℕ} {w v : Value} {p : Predicate} {check : RuleCheck}

/-- Something goes wrong. -/
def Fails (result : Except String Bool) : Prop := ∃ e, result = .error e

lemma not_fails_ok (b : Bool) : ¬ Fails (.ok b) := by
  rintro ⟨e, error⟩
  cases error

/-- A value is matched without the pattern only if it is random. -/
lemma checkSingleValue_broken {pattern e : String} (broken : re.build pattern = .error e) (v : Value) :
    checkSingleValue re v (.regex pattern) = if (parseRandom v).isNone then .error e else .ok true := by
  rw [checkSingleValue.eq_def]
  cases parseRandom v with
  | none =>
    dsimp only
    rw [broken]
    rfl
  | some bounds =>
    cases bounds with
    | _ => rfl

lemma someKey_broken {pattern e : String} (broken : re.build pattern = .error e) (entries : List (Value × Value)) :
    Fails (someKey re (.regex pattern) entries) ↔
      ((entries.find? fun e => e.2.asInteger.getD 0 != 0).any fun e => (parseRandom e.1).isNone) = true := by
  induction entries with
  | nil => exact iff_of_false (not_fails_ok false) Bool.false_ne_true
  | cons entry rest ih =>
    obtain ⟨key, weight⟩ := entry
    rw [someKey, List.find?_cons]
    by_cases zero : weight.asInteger.getD 0 = 0
    · rw [if_pos zero, ih, bne_eq_false_iff_eq.mpr zero]
    · rw [if_neg zero, bne_iff_ne.mpr zero, checkSingleValue_broken broken, Option.any_some]
      cases (parseRandom key).isNone with
      | true => exact iff_of_true ⟨e, rfl⟩ rfl
      | false => exact iff_of_false (not_fails_ok true) Bool.false_ne_true

/-- A check fails just if it needs a pattern that does not compile. -/
lemma evaluateAt_fails_iff {path : String} :
    Fails (evaluateAt re path check w) ↔ ∃ pattern v, check = .regex pattern ∧ navigatePath w path = some v ∧
      needsPattern v = true ∧ ¬ ∃ isMatch, re.build pattern = .ok isMatch := by
  by_cases compiles : ∀ pattern, check = .regex pattern → ∃ isMatch, re.build pattern = .ok isMatch
  · rw [evaluateAt_of_compiles compiles]
    refine iff_of_false (not_fails_ok _) ?_
    rintro ⟨pattern, _, isPattern, _, _, broken⟩
    exact broken (compiles pattern isPattern)
  · obtain ⟨pattern, hyp⟩ := not_forall.mp compiles
    obtain ⟨rfl, broken⟩ := Classical.not_imp.mp hyp
    obtain ⟨e, error⟩ : ∃ e, re.build pattern = .error e := by
      cases built : re.build pattern with
      | ok isMatch => exact (broken ⟨isMatch, built⟩).elim
      | error e => exact ⟨e, rfl⟩
    have value : ∀ v, Fails (evaluateCheck re v (.regex pattern)) ↔ needsPattern v = true := by
      intro v
      have single : Fails (checkSingleValue re v (.regex pattern)) ↔ (parseRandom v).isNone = true := by
        rw [checkSingleValue_broken error]
        cases (parseRandom v).isNone with
        | true => exact iff_of_true ⟨e, rfl⟩ rfl
        | false => exact iff_of_false (not_fails_ok true) Bool.false_ne_true
      rw [evaluateCheck_of_keys rfl rfl, needsPattern, weights]
      cases v.asMapping with
      | none => exact single
      | some entries =>
        rw [Option.elim_some, Option.filter_some]
        split
        · exact someKey_broken error entries
        · exact single
    rw [evaluateAt.eq_def]
    cases navigatePath w path with
    | none =>
      refine iff_of_false (not_fails_ok false) ?_
      rintro ⟨_, _, _, found, _⟩
      cases found
    | some v =>
      refine (value v).trans ⟨fun needed => ⟨pattern, v, rfl, rfl, needed, broken⟩, ?_⟩
      rintro ⟨_, _, isPattern, found, needed, _⟩
      cases found
      exact needed

/-- A member at which something happens: the first one, or one of the others. -/
lemma exists_split_cons {A : Type} {before : List A → Prop} {here : A → Prop} (a : A) (l : List A) :
    (∃ l₁ x l₂, a :: l = l₁ ++ x :: l₂ ∧ before l₁ ∧ here x) ↔
      (before [] ∧ here a) ∨ ∃ l₁ x l₂, l = l₁ ++ x :: l₂ ∧ before (a :: l₁) ∧ here x := by
  constructor
  · rintro ⟨l₁, x, l₂, split, earlier, there⟩
    cases l₁ with
    | nil =>
      cases split
      exact .inl ⟨earlier, there⟩
    | cons b l₁ =>
      obtain ⟨rfl, rfl⟩ := List.cons.inj split
      exact .inr ⟨l₁, x, l₂, rfl, earlier, there⟩
  · rintro (⟨earlier, there⟩ | ⟨l₁, x, l₂, rfl, earlier, there⟩)
    · exact ⟨[], a, l, rfl, earlier, there⟩
    · exact ⟨a :: l₁, x, l₂, rfl, earlier, there⟩

lemma not_exists_split_nil {A : Type} {before : List A → Prop} {here : A → Prop} :
    ¬ ∃ l₁ x l₂, ([] : List A) = l₁ ++ x :: l₂ ∧ before l₁ ∧ here x := by
  rintro ⟨l₁, x, l₂, split, _⟩
  exact List.append_ne_nil_of_right_ne_nil l₁ (List.cons_ne_nil x l₂) split.symm

section Members
variable {ps : List Predicate} {here : Predicate → Prop}
  (fails : ∀ p ∈ ps, Fails (evaluatePredicate re w p) ↔ here p)
  (meant : ∀ p ∈ ps, ∀ b, evaluatePredicate re w p = .ok b → p.meaning (leaf re w) = b)
include fails meant

lemma allHold_fails_iff : Fails (allHold re w ps) ↔
    ∃ l₁ p l₂, ps = l₁ ++ p :: l₂ ∧ (∀ q ∈ l₁, q.meaning (leaf re w) = true) ∧ here p := by
  induction ps with
  | nil => exact iff_of_false (not_fails_ok true) not_exists_split_nil
  | cons p ps ih =>
    obtain ⟨failsHere, failsThere⟩ := List.forall_mem_cons.mp fails
    obtain ⟨meantHere, meantThere⟩ := List.forall_mem_cons.mp meant
    rw [exists_split_cons, allHold]
    cases first : evaluatePredicate re w p with
    | error e => exact iff_of_true ⟨e, rfl⟩ (.inl ⟨List.forall_mem_nil _, failsHere.mp ⟨e, first⟩⟩)
    | ok b =>
      have not_here : ¬ here p := fun h => by
        obtain ⟨e, error⟩ := failsHere.mpr h
        cases first.symm.trans error
      have means := meantHere b first
      cases b with
      | true =>
        refine (ih failsThere meantThere).trans ?_
        simp only [List.forall_mem_cons, means, not_here, and_false, false_or, true_and]
      | false =>
        refine iff_of_false (not_fails_ok false) ?_
        simp [means, not_here]

lemma someHolds_fails_iff : Fails (someHolds re w ps) ↔
    ∃ l₁ p l₂, ps = l₁ ++ p :: l₂ ∧ (∀ q ∈ l₁, q.meaning (leaf re w) = false) ∧ here p := by
  induction ps with
  | nil => exact iff_of_false (not_fails_ok false) not_exists_split_nil
  | cons p ps ih =>
    obtain ⟨failsHere, failsThere⟩ := List.forall_mem_cons.mp fails
    obtain ⟨meantHere, meantThere⟩ := List.forall_mem_cons.mp meant
    rw [exists_split_cons, someHolds]
    cases first : evaluatePredicate re w p with
    | error e => exact iff_of_true ⟨e, rfl⟩ (.inl ⟨List.forall_mem_nil _, failsHere.mp ⟨e, first⟩⟩)
    | ok b =>
      have not_here : ¬ here p := fun h => by
        obtain ⟨e, error⟩ := failsHere.mpr h
        cases first.symm.trans error
      have means := meantHere b first
      cases b with
      | true =>
        refine iff_of_false (not_fails_ok true) ?_
        simp [means, not_here]
      | false =>
        refine (ih failsThere meantThere).trans ?_
        simp only [List.forall_mem_cons, means, not_here, and_false, false_or, true_and]

lemma enoughHold_fails_iff {count matched : ℕ} (less : matched < count) :
    Fails (enoughHold re w count matched ps) ↔
      ∃ l₁ p l₂, ps = l₁ ++ p :: l₂ ∧ matched + (meaningEach (leaf re w) l₁).count true < count ∧ here p := by
  induction ps generalizing matched with
  | nil => exact iff_of_false (not_fails_ok false) not_exists_split_nil
  | cons p ps ih =>
    obtain ⟨failsHere, failsThere⟩ := List.forall_mem_cons.mp fails
    obtain ⟨meantHere, meantThere⟩ := List.forall_mem_cons.mp meant
    rw [exists_split_cons, enoughHold]
    cases first : evaluatePredicate re w p with
    | error e => exact iff_of_true ⟨e, rfl⟩ (.inl ⟨less, failsHere.mp ⟨e, first⟩⟩)
    | ok b =>
      have not_here : ¬ here p := fun h => by
        obtain ⟨e, error⟩ := failsHere.mpr h
        cases first.symm.trans error
      have means := meantHere b first
      simp only [meaningEach, means, not_here, and_false, false_or]
      cases b with
      | false =>
        refine (ih failsThere meantThere less).trans ?_
        simp
      | true =>
        by_cases last : count ≤ matched + 1
        · refine iff_of_false ?_ ?_
          · rintro ⟨e, error⟩
            have stops : (if count ≤ matched + 1 then pure true else enoughHold re w count (matched + 1) ps) =
                Except.error e := error
            rw [if_pos last] at stops
            cases stops
          · rintro ⟨l₁, q, l₂, _, few, _⟩
            rw [List.count_cons_self] at few
            omega
        · have goesOn : Fails (if count ≤ matched + 1 then pure true else enoughHold re w count (matched + 1) ps) ↔
              Fails (enoughHold re w count (matched + 1) ps) := by
            rw [if_neg last]
          refine goesOn.trans ((ih failsThere meantThere (by omega)).trans ?_)
          simp only [List.count_cons_self, Nat.add_assoc, Nat.add_comm 1]

end Members

lemma not_builds_of_tooLarge (sized : Sized re size) {pattern : String} (large : TooLarge size pattern) :
    ¬ ∃ isMatch, re.build pattern = .ok isMatch := by
  obtain ⟨n, isSize, more, _⟩ := large
  intro built
  obtain ⟨m, isSize', within⟩ := (sized.build pattern).mp built
  cases isSize.symm.trans isSize'
  omega

/-- A pattern that was accepted and does not compile is too large. -/
lemma tooLarge_of_not_builds (sized : Sized re size) {pattern : String} (accepted : re.valid pattern = true)
    (broken : ¬ ∃ isMatch, re.build pattern = .ok isMatch) : TooLarge size pattern := by
  obtain ⟨n, isSize, within⟩ := (sized.valid pattern).mp accepted
  refine ⟨n, isSize, ?_, within⟩
  by_contra small
  exact broken ((sized.build pattern).mpr ⟨n, isSize, by omega⟩)

/-- An accepted predicate fails to evaluate just if it comes to a pattern that is too large. -/
theorem evaluatePredicate_fails_iff (sized : Sized re size) (accepted : p.validate re = .ok ()) :
    Fails (evaluatePredicate re w p) ↔ ∃ pattern, ComesTo re w p pattern ∧ TooLarge size pattern := by
  induction p using Predicate.ind with
  | check path check =>
    rw [evaluatePredicate, evaluateAt_fails_iff]
    constructor
    · rintro ⟨pattern, v, rfl, found, needed, broken⟩
      have valid : re.valid pattern = true := by
        simp only [Predicate.validate] at accepted
        split at accepted
        · cases accepted
        · split at accepted
          case isTrue valid => exact valid
          case isFalse => cases accepted
      exact ⟨pattern, .check found needed, tooLarge_of_not_builds sized valid broken⟩
    · rintro ⟨pattern, comes, large⟩
      cases comes with
      | check found needed => exact ⟨pattern, _, rfl, found, needed, not_builds_of_tooLarge sized large⟩
  | not p ih =>
    have inside := ih accepted
    have same : Fails (evaluatePredicate re w (.not p)) ↔ Fails (evaluatePredicate re w p) := by
      rw [evaluatePredicate]
      cases evaluatePredicate re w p with
      | error e => exact iff_of_true ⟨e, rfl⟩ ⟨e, rfl⟩
      | ok b => exact iff_of_false (not_fails_ok _) (not_fails_ok _)
    rw [same, inside]
    constructor
    · rintro ⟨pattern, comes, large⟩
      exact ⟨pattern, .not comes, large⟩
    · rintro ⟨pattern, comes, large⟩
      cases comes with
      | not comes => exact ⟨pattern, comes, large⟩
  | and ps ih =>
    rw [Predicate.validate, validateAll_ok] at accepted
    rw [evaluatePredicate, allHold_fails_iff (fun p mem => ih p mem (accepted p mem)) fun p mem b evaluated =>
      (meaning_eq_denote (accepted p mem)).trans (denote_of_ok evaluated)]
    constructor
    · rintro ⟨before, p, after, rfl, earlier, pattern, comes, large⟩
      exact ⟨pattern, .and earlier comes, large⟩
    · rintro ⟨pattern, comes, large⟩
      cases comes with
      | and earlier comes => exact ⟨_, _, _, rfl, earlier, pattern, comes, large⟩
  | or ps ih =>
    rw [Predicate.validate, validateAll_ok] at accepted
    rw [evaluatePredicate, someHolds_fails_iff (fun p mem => ih p mem (accepted p mem)) fun p mem b evaluated =>
      (meaning_eq_denote (accepted p mem)).trans (denote_of_ok evaluated)]
    constructor
    · rintro ⟨before, p, after, rfl, earlier, pattern, comes, large⟩
      exact ⟨pattern, .or earlier comes, large⟩
    · rintro ⟨pattern, comes, large⟩
      cases comes with
      | or earlier comes => exact ⟨_, _, _, rfl, earlier, pattern, comes, large⟩
  | atLeast count ps ih =>
    rw [Predicate.validate] at accepted
    split at accepted
    · cases accepted
    case isFalse positive =>
      split at accepted
      · cases accepted
      · rw [validateAll_ok] at accepted
        rw [evaluatePredicate, enoughHold_fails_iff (fun p mem => ih p mem (accepted p mem)) (fun p mem b evaluated =>
          (meaning_eq_denote (accepted p mem)).trans (denote_of_ok evaluated)) (Nat.pos_of_ne_zero positive)]
        simp only [Nat.zero_add]
        constructor
        · rintro ⟨before, p, after, rfl, few, pattern, comes, large⟩
          exact ⟨pattern, .atLeast few comes, large⟩
        · rintro ⟨pattern, comes, large⟩
          cases comes with
          | atLeast few comes => exact ⟨_, _, _, rfl, few, pattern, comes, large⟩

/-! ## Rules -/

variable {rule : Rule} {yaml : Value} {g : String}

/-- No rule comes to a branch that is marked as unreachable. -/
theorem evaluateRule_strict (rule : Rule) (yaml : Value) (g : String) :
    Strict.evaluateRule re rule yaml g = some (evaluateRule re rule yaml g) := by
  have returned : ∀ (w : Value) p, Strict.outcomeOf (Strict.evaluatePredicate re w p) =
      some (evaluatePredicate re w p) := by
    intro w p
    rw [Strict.evaluatePredicate_strict]
    cases evaluatePredicate re w p with
    | _ => rfl
  rw [Strict.evaluateRule, evaluateRule]
  split
  · rfl
  · cases yaml.asMappingGet g with
    | none => rfl
    | some w =>
      dsimp only
      rw [returned]
      cases rule.when with
      | none =>
        dsimp only
        cases evaluatePredicate re w rule.then_ with
        | error e => rfl
        | ok b =>
          cases b with
          | _ => rfl
      | some condition =>
        dsimp only
        rw [returned]
        cases evaluatePredicate re w condition with
        | error e => rfl
        | ok b =>
          cases b with
          | false => rfl
          | true =>
            cases evaluatePredicate re w rule.then_ with
            | error e => rfl
            | ok b =>
              cases b with
              | _ => rfl

/-- A rule gives an error just if its condition fails, or what it warns of where the condition holds. -/
lemma evaluateRule_error_iff : (evaluateRule re rule yaml g).outcome = .error ↔
    (∀ game, rule.game = some game → game = g) ∧ ∃ w, yaml.asMappingGet g = some w ∧
      ((∃ condition, rule.when = some condition ∧ Fails (evaluatePredicate re w condition)) ∨
        (∀ condition, rule.when = some condition → evaluatePredicate re w condition = .ok true) ∧
          Fails (evaluatePredicate re w rule.then_)) := by
  rw [evaluateRule]
  by_cases other : rule.game.any (· != g) = true
  · rw [if_pos other]
    refine iff_of_false (by simp) ?_
    rintro ⟨same, _⟩
    obtain ⟨game, isGame, differs⟩ := (Option.any_eq_true _ _).mp other
    exact bne_iff_ne.mp differs (same game isGame)
  · have same : ∀ game, rule.game = some game → game = g := by
      intro game isGame
      rw [isGame, Option.any_some, Bool.not_eq_true, bne_eq_false_iff_eq] at other
      exact other
    rw [if_neg other, and_iff_right same]
    cases yaml.asMappingGet g with
    | none => exact iff_of_false (by simp) (by rintro ⟨w, found, _⟩; cases found)
    | some w =>
      simp only [Option.some.injEq, exists_eq_left']
      have warns : (∃ e, evaluatePredicate re w rule.then_ = .error e) ↔ Fails (evaluatePredicate re w rule.then_) :=
        Iff.rfl
      cases rule.when with
      | none =>
        simp only [reduceCtorEq, false_and, exists_false, false_or, false_implies, implies_true, true_and]
        cases evaluatePredicate re w rule.then_ with
        | error e => exact iff_of_true rfl ⟨e, rfl⟩
        | ok b =>
          refine iff_of_false ?_ (not_fails_ok b)
          cases b with
          | _ => simp
      | some condition =>
        simp only [Option.some.injEq, exists_eq_left', forall_eq']
        cases evaluatePredicate re w condition with
        | error e => exact iff_of_true rfl (.inl ⟨e, rfl⟩)
        | ok b =>
          cases b with
          | false => exact iff_of_false (by simp) (by rintro (⟨e, error⟩ | ⟨holds, _⟩) <;> contradiction)
          | true =>
            simp only [not_fails_ok, false_or, true_and]
            cases evaluatePredicate re w rule.then_ with
            | error e => exact iff_of_true rfl ⟨e, rfl⟩
            | ok b =>
              refine iff_of_false ?_ (not_fails_ok b)
              cases b with
              | _ => simp

/-- No unreachable branch is reached, so a rule that can't be evaluated gives an error. -/
lemma canBeEvaluated_iff_outcome :
    CanBeEvaluated re rule yaml g ↔ ¬ (evaluateRule re rule yaml g).outcome = .error := by
  simp only [CanBeEvaluated, evaluateRule_strict, Option.some.injEq, exists_eq_left', ne_eq]

/-- An accepted rule is evaluated without an error just if it does not come to a pattern that is too large. -/
theorem canBeEvaluated_iff (re : RegexLib) (size : String → Option ℕ) (sized : Sized re size) (rule : Rule)
    (accepted : rule.validate re = .ok ()) (yaml : Value) (g : String) :
    CanBeEvaluated re rule yaml g ↔ ¬ ComesToTooLarge re size rule yaml g := by
  obtain ⟨acceptedWhen, acceptedThen⟩ := Rule.validate_parts accepted
  rw [canBeEvaluated_iff_outcome, evaluateRule_error_iff, ComesToTooLarge]
  refine not_congr (and_congr_right fun _ => exists_congr fun w => and_congr_right fun _ => ?_)
  rw [evaluatePredicate_fails_iff sized acceptedThen]
  cases isWhen : rule.when with
  | none => simp
  | some condition =>
    have fails := @evaluatePredicate_fails_iff re size w condition sized (acceptedWhen condition isWhen)
    simp only [Option.some.injEq, exists_and_left, exists_eq_left', forall_eq']
    rw [← fails]
    cases evaluated : evaluatePredicate re w condition with
    | error e => exact iff_of_true (.inl ⟨e, rfl⟩) (.inl ⟨e, rfl⟩)
    | ok b =>
      have means := (meaning_eq_denote (acceptedWhen condition isWhen)).trans (denote_of_ok evaluated)
      rw [means, Except.ok.injEq]

end

/-! ## A pattern between the limits -/

/-- The sizes of a word and of fifty letters, for each of which the pattern holds all letters of all alphabets. -/
def patternSize (pattern : String) : Option ℕ :=
  if pattern = "gem" then some 1000 else if pattern = "\\w\x7b50\x7d" then some 2500000 else none

/-- A library that knows these two patterns. -/
def twoPatterns : RegexLib where
  valid pattern := (patternSize pattern).any (· ≤ defaultSizeLimit)
  build pattern :=
    if (patternSize pattern).any (· ≤ regexSizeLimit) then .ok fun text => decide (pattern.toList <:+: text.toList)
    else .error "Compiled regex exceeds size limit of 1000000 bytes."

lemma twoPatterns_sized : Sized twoPatterns patternSize := by
  have limit : ∀ bound pattern, (patternSize pattern).any (· ≤ bound) = true ↔
      ∃ n, patternSize pattern = some n ∧ n ≤ bound := by
    intro bound pattern
    simp only [Option.any_eq_true, decide_eq_true_eq]
  constructor
  · exact limit defaultSizeLimit
  · intro pattern
    rw [← limit, twoPatterns]
    dsimp only
    split
    case isTrue small => exact iff_of_true ⟨_, rfl⟩ small
    case isFalse large => exact iff_of_false (by simp) large

/-- A rule with a word for its pattern can be evaluated. -/
theorem word_canBeEvaluated :
    CanBeEvaluated twoPatterns (oneCheck false (.regex "gem")) (oneOption (.string "gems")) "Tunic" := by
  apply (canBeEvaluated_iff twoPatterns patternSize twoPatterns_sized (oneCheck false (.regex "gem"))
    (by decide +kernel)
    (oneOption (.string "gems")) "Tunic").mpr
  rintro ⟨_, w, _, ⟨_, _, isWhen, _⟩ | ⟨_, pattern, comes, large⟩⟩
  · cases isWhen
  · cases comes with
    | check found needed =>
      obtain ⟨n, isSize, more, _⟩ := large
      cases isSize
      exact absurd more (by decide)

/-- Fifty letters are accepted as a pattern and give an error. -/
theorem letters_not_evaluated : ¬ ∀ (re : RegexLib) (size : String → Option ℕ), Sized re size →
    ∀ rule : Rule, rule.validate re = .ok () → ∀ yaml g, CanBeEvaluated re rule yaml g := by
  intro claim
  have accepted : (oneCheck false (.regex "\\w\x7b50\x7d")).validate twoPatterns = .ok () := by decide +kernel
  have evaluated := claim twoPatterns patternSize twoPatterns_sized _ accepted (oneOption (.string "gems")) "Tunic"
  exact canBeEvaluated_iff_outcome.mp evaluated (by decide +kernel)

end ArchipelagoXL.Tools
