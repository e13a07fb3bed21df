import ArchipelagoXL.Lobby.Yaml
import ArchipelagoXL.Tools.Values

/-!
# Review rules

A rule looks at the options of one game in a YAML. Its checks are put together by predicates, and it fails
where its condition and what it warns of both hold. An option that is not settled yet, with weights or with a
random range, is checked for what it can become.

Regular expressions are those of a library; the cache in front of it does not change what is found.
-/

namespace ArchipelagoXL.Tools

inductive Severity where
  | info
  | warning
  | error
deriving DecidableEq, Repr

inductive Outcome where
  | pass
  | fail
  | skipped
  | notPresent
  | error
deriving DecidableEq, Repr

inductive RuleCheck where
  | truthy
  | notTruthy
  | equals (value : String)
  | notEquals (value : String)
  | greaterThan (value : ℤ)
  | lessThan (value : ℤ)
  | range (min max : ℤ)
  | regex (pattern : String)
  | contains (value : String)
  | notContains (value : String)
  | count (check : RuleCheck)
  | exists_
  | notExists
deriving DecidableEq, Repr

inductive Predicate where
  | check (path : String) (check : RuleCheck)
  | and (predicates : List Predicate)
  | or (predicates : List Predicate)
  | not (predicate : Predicate)
  | atLeast (count : ℕ) (predicates : List Predicate)

/-- What the library for regular expressions does with a pattern. -/
structure RegexLib where
  /-- Whether it is a pattern. -/
  valid : String → Bool
  /-- The texts it matches, if it does not grow too large. -/
  build : String → Except String (String → Bool)

/-- A library without patterns. -/
def noPatterns : RegexLib := ⟨fun _ => false, .error⟩

/-! ## Validation -/

def RuleCheck.isNumeric : RuleCheck → Bool
  | equals _ | notEquals _ | greaterThan _ | lessThan _ | range _ _ => true
  | _ => false

mutual

def Predicate.validate (re : RegexLib) : Predicate → Except String Unit
  | .check path check =>
    if Lobby.trim path.toList = [] then .error "Check predicate has an empty path"
    else
      match check with
      | .regex pattern => if re.valid pattern then .ok () else .error "Invalid regex pattern"
      | .count inner => if inner.isNumeric then .ok () else .error "Count check must use a numeric comparison"
      | _ => .ok ()
  | .and predicates => validateAll re predicates
  | .or predicates => validateAll re predicates
  | .not predicate => predicate.validate re
  | .atLeast count predicates =>
    if count = 0 then .error "AtLeast count must be greater than 0"
    else if predicates.length < count then .error "AtLeast count exceeds number of predicates"
    else validateAll re predicates

def validateAll (re : RegexLib) : List Predicate → Except String Unit
  | [] => .ok ()
  | p :: ps =>
    match p.validate re with
    | .ok () => validateAll re ps
    | .error e => .error e

end

structure Rule where
  name : String
  game : Option String
  when : Option Predicate
  then_ : Predicate
  severity : Severity

def Rule.validate (re : RegexLib) (rule : Rule) : Except String Unit :=
  match rule.when with
  | some condition =>
    match condition.validate re with
    | .ok () => rule.then_.validate re
    | .error e => .error e
  | none => rule.then_.validate re

structure RuleResult where
  ruleName : String
  outcome : Outcome
  severity : Severity
  detail : Option String
deriving DecidableEq, Repr

def Rule.result (rule : Rule) (outcome : Outcome) (detail : Option String) : RuleResult :=
  ⟨rule.name, outcome, rule.severity, detail⟩

@[simp] lemma Rule.result_outcome (rule : Rule) (outcome : Outcome) (detail : Option String) :
    (rule.result outcome detail).outcome = outcome := rfl

/-! ## Values -/

/-- Lower case; the words it is compared with are ASCII, and no other letter becomes one of theirs. -/
def toLowercase (s : String) : List Char := s.toList.map Char.toLower

def isTrueish (option : Value) : Bool :=
  match option.asBool, option.asInteger, option.asStr with
  | some value, _, _ => value
  | none, some value, _ => value != 0
  | none, none, some s =>
    match parseI64 s with
    | some value => value != 0
    | none =>
      let value := toLowercase s
      value == "true".toList || value == "all".toList || value == "full".toList ||
        "random".toList.isPrefixOf value || "enable".toList.isPrefixOf value
  | none, none, none => false

def yamlValueAsString (val : Value) : String := (reviewValueAsString val).getD ""

def yamlValueAsI64 (val : Value) : Option ℤ :=
  match val.asInteger with
  | some i => some i
  | none => val.asStr.bind parseI64

/-- Rust `split` at a character. -/
def splitAt (c : Char) (s : String) : List String := (s.toList.splitOn c).map String.ofList

/-- The value where a path of keys leads. -/
def navigate : List String → Value → Option Value
  | [], v => some v
  | part :: rest, v => (v.asMappingGet part).bind (navigate rest)

def navigatePath (yaml : Value) (path : String) : Option Value := navigate (splitAt '.' path) yaml

/-- What is random of a value: nothing, any value, or the integers of a range. -/
def parseRandom (val : Value) : Option (Option (ℤ × ℤ)) :=
  val.asStr.bind fun s =>
    if s = "random" ∨ s = "random-low" ∨ s = "random-middle" ∨ s = "random-high" then some none
    else if "random-range".toList.isPrefixOf s.toList then
      let parts := splitAt '-' s
      if 4 ≤ parts.length then
        match (parts[parts.length - 2]?).bind parseI64, (parts[parts.length - 1]?).bind parseI64 with
        | some a, some b => some (some (min a b, max a b))
        | _, _ => none
      else none
    else none

/-! ## Checks -/

/-- Whether a random value can pass a check; `Exists` and `NotExists` never come here. -/
def checkRandom : Option (ℤ × ℤ) → RuleCheck → Bool
  | none, _ => true
  | some (min, max), check =>
    match check with
    | .truthy => min != 0 || max != 0
    | .notTruthy => min ≤ 0 && 0 ≤ max
    | .equals value => (parseI64 value).any fun v => min ≤ v && v ≤ max
    | .notEquals value => (parseI64 value).any fun v => min != max || v != min
    | .greaterThan value => value < max
    | .lessThan value => min < value
    | .range rmin rmax => rmin ≤ max && min ≤ rmax
    | .regex _ | .contains _ => true
    | .count _ | .notContains _ => false
    | .exists_ | .notExists => false

def evaluateCountCheck (count : ℤ) : RuleCheck → Bool
  | .equals value => (parseI64 value).any fun v => count == v
  | .notEquals value => (parseI64 value).all fun v => count != v
  | .greaterThan value => value < count
  | .lessThan value => count < value
  | .range min max => min ≤ count && count ≤ max
  | _ => false

/-- Whether a value is among those of a sequence, the keys of a mapping that are switched on, or the parts of
a text. -/
def containsValue (val : Value) (value : String) : Bool :=
  match val.asSequence, val.asMapping with
  | some items, _ => items.any fun item => yamlValueAsString item == value
  | none, some entries => entries.any fun e => yamlValueAsString e.1 == value && isTrueish e.2
  | none, none => (splitAt ',' (yamlValueAsString val)).any fun part => Lobby.trim part.toList == value.toList

/-- `Count`, `Exists` and `NotExists` never come here. -/
def checkSingleValue (re : RegexLib) (val : Value) (check : RuleCheck) : Except String Bool :=
  match parseRandom val with
  | some bounds => .ok (checkRandom bounds check)
  | none =>
    match check with
    | .truthy => .ok (isTrueish val)
    | .notTruthy => .ok (!isTrueish val)
    | .equals value => .ok (yamlValueAsString val == value)
    | .notEquals value => .ok (yamlValueAsString val != value)
    | .greaterThan value => .ok ((yamlValueAsI64 val).any fun v => value < v)
    | .lessThan value => .ok ((yamlValueAsI64 val).any fun v => v < value)
    | .range min max => .ok ((yamlValueAsI64 val).any fun v => min ≤ v && v ≤ max)
    | .regex pattern => do
      let isMatch ← re.build pattern
      return isMatch (yamlValueAsString val)
    | .contains value => .ok (containsValue val value)
    | .notContains value => .ok (!containsValue val value)
    | .count _ | .exists_ | .notExists => .ok false

/-- Whether one of the keys with a weight passes a check. -/
def someKey (re : RegexLib) (check : RuleCheck) : List (Value × Value) → Except String Bool
  | [] => .ok false
  | (key, weight) :: rest =>
    if weight.asInteger.getD 0 = 0 then someKey re check rest
    else do
      if ← checkSingleValue re key check then return true
      someKey re check rest

def looksLikeWeighted (entries : List (Value × Value)) : Bool := entries.all fun e => e.2.asInteger.isSome

def evaluateCheck (re : RegexLib) (val : Value) (check : RuleCheck) : Except String Bool :=
  match check with
  | .count inner =>
    match val.asSequence, val.asMapping with
    | some items, _ => .ok (evaluateCountCheck items.length inner)
    | none, some entries => .ok (evaluateCountCheck entries.length inner)
    | none, none => .ok false
  | .contains _ | .notContains _ => checkSingleValue re val check
  | _ =>
    match val.asMapping with
    | some entries =>
      if looksLikeWeighted entries && !entries.isEmpty then someKey re check entries
      else checkSingleValue re val check
    | none => checkSingleValue re val check

/-- A check at a path of a game's section. -/
def evaluateAt (re : RegexLib) (path : String) (check : RuleCheck) (gameYaml : Value) : Except String Bool :=
  match check, navigatePath gameYaml path with
  | .exists_, found => .ok found.isSome
  | .notExists, found => .ok found.isNone
  -- what is missing is not contained
  | .notContains _, none => .ok true
  | _, none => .ok false
  | check, some val => evaluateCheck re val check

/-! ## Predicates and rules -/

mutual

def evaluatePredicate (re : RegexLib) (gameYaml : Value) : Predicate → Except String Bool
  | .check path check => evaluateAt re path check gameYaml
  | .and predicates => allHold re gameYaml predicates
  | .or predicates => someHolds re gameYaml predicates
  | .not predicate => do return !(← evaluatePredicate re gameYaml predicate)
  | .atLeast count predicates => enoughHold re gameYaml count 0 predicates

def allHold (re : RegexLib) (gameYaml : Value) : List Predicate → Except String Bool
  | [] => .ok true
  | p :: ps => do
    if !(← evaluatePredicate re gameYaml p) then return false
    allHold re gameYaml ps

def someHolds (re : RegexLib) (gameYaml : Value) : List Predicate → Except String Bool
  | [] => .ok false
  | p :: ps => do
    if ← evaluatePredicate re gameYaml p then return true
    someHolds re gameYaml ps

def enoughHold (re : RegexLib) (gameYaml : Value) (count : ℕ) : ℕ → List Predicate → Except String Bool
  | _, [] => .ok false
  | matched, p :: ps => do
    if ← evaluatePredicate re gameYaml p then
      if count ≤ matched + 1 then return true
      enoughHold re gameYaml count (matched + 1) ps
    else enoughHold re gameYaml count matched ps

end

def evaluateRule (re : RegexLib) (rule : Rule) (yaml : Value) (gameName : String) : RuleResult :=
  if rule.game.any (· != gameName) then rule.result .skipped none
  else
    match yaml.asMappingGet gameName with
    | none => rule.result .notPresent (some ("Game section '" ++ gameName ++ "' not found"))
    | some gameYaml =>
      let thenResult := match evaluatePredicate re gameYaml rule.then_ with
        | .ok true => rule.result .fail none
        | .ok false => rule.result .pass none
        | .error e => rule.result .error (some ("Error evaluating rule: " ++ e))
      match rule.when with
      | none => thenResult
      | some condition =>
        match evaluatePredicate re gameYaml condition with
        | .ok true => thenResult
        | .ok false => rule.result .skipped none
        | .error e => rule.result .error (some ("Error evaluating condition: " ++ e))

end ArchipelagoXL.Tools
