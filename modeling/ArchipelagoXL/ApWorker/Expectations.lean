import ArchipelagoXL.Lib.Lowercase
import ArchipelagoXL.Lib.Pointwise
import ArchipelagoXL.Lib.Timeline
import Mathlib.Data.List.TakeWhile
import Mathlib.Order.Fin.Basic

/-!
# Expectations of tests

The tests of an apworld are judged by what is expected of them at a version, and what they came to unexpectedly
is written down for the versions from this one on (`ap-worker/ap_tests.py`). The file has for each test a list of
annotations, each for an interval of versions; the first one that applies is what is expected.

Only the annotation that applies at the version of the run is ended there, and the new one has no end. So a test
that is annotated for a later version already gets two annotations for it (`expectations_describe_iff`).

The package for versions and the one for TOML are parameters; a file is what is read of it.
-/

namespace ArchipelagoXL.ApWorker

open Lowercase (CaseTables)
open Timeline (Period)

/-- The Python package `semver`. Versions with the same precedence may be written in different ways. -/
structure Semver (V P : Type) where
  precedence : V → P
  onto : Function.Surjective precedence
  parse : String → Option V
  print : V → String
  parse_print : ∀ v, parse (print v) = some v
  plain : ∀ v, ∀ c ∈ (print v).toList, c ≠ '<' ∧ c ≠ '>' ∧ c ≠ ','

/-- A table of the file. -/
structure Params where
  expected : String
  version : Option String
deriving DecidableEq

/-- The annotations of a file, by the normalized ids of the tests. -/
abbrev AnnotationsFile := List (String × List Params)

/-- Python `Annotation`. -/
structure AnnotationEntry (V : Type) where
  versionMin : Option V
  versionMax : Option V
  params : Params

/-- What a test or a subtest came to. -/
inductive Observed where
  | success
  | fail
  | error
deriving DecidableEq

def Observed.text : Observed → String
  | success => "success"
  | fail => "fail"
  | error => "error"

/-- What `unittest` reports: the id of a test, of the test that it is a subtest of, and what it came to. -/
structure TestEvent where
  id : String
  testCase : Option String
  observed : Observed

/-- The lists of `unittest.TestResult` that are looked at. -/
structure TestResults where
  failures : List String
  errors : List String
  unexpectedSuccesses : List String

/-- A run of the tests at a version. -/
structure TestRun (V : Type) where
  version : V
  events : List TestEvent

section
variable {V P : Type} (semver : Semver V P) (tables : CaseTables)

/-! ## Annotations -/

/-- Python `get_max_version_bound`, if it doesn't raise. -/
def getMaxVersionBound : Option String → Option (Option V)
  | none => some none
  | some version =>
    if '<' ∉ version.toList then some none
    else (semver.parse (String.ofList (version.toList.dropWhile (· != '<')).tail)).map some

/-- Python `get_min_version_bound`, if it doesn't raise. -/
def getMinVersionBound : Option String → Option (Option V)
  | none => some none
  | some version =>
    if ">=".toList.isPrefixOf version.toList then
      (semver.parse (String.ofList ((version.toList.drop 2).takeWhile (· != ',')))).map some
    else if "<".toList.isPrefixOf version.toList then some none
    else (semver.parse version).map some

/-- Python `Annotation.__init__`. -/
def AnnotationEntry.ofParams (params : Params) : Option (AnnotationEntry V) := do
  let versionMin ← getMinVersionBound semver params.version
  let versionMax ← getMaxVersionBound semver params.version
  return ⟨versionMin, versionMax, params⟩

/-- Python `get_expected_result`. -/
def AnnotationEntry.getExpectedResult (a : AnnotationEntry V) : String := tables.toLowercase a.params.expected

/-- Python `to_toml`. -/
def AnnotationEntry.toToml (a : AnnotationEntry V) : Params :=
  match a.versionMin, a.versionMax with
  | none, none => a.params
  | none, some max => { a.params with version := some ("<" ++ semver.print max) }
  | some min, none => { a.params with version := some (">=" ++ semver.print min) }
  | some min, some max => { a.params with version := some (">=" ++ semver.print min ++ ",<" ++ semver.print max) }

/-- The period that an annotation speaks of. -/
def AnnotationEntry.period (a : AnnotationEntry V) : Period P String where
  start := a.versionMin.map semver.precedence
  stop := a.versionMax.map semver.precedence
  value := a.getExpectedResult tables

/-- What an annotation is written as and read from again has the same bounds. -/
structure AnnotationEntry.ReadsAs (a b : AnnotationEntry V) : Prop where
  versionMin : b.versionMin = a.versionMin
  versionMax : b.versionMax = a.versionMax
  expected : b.params.expected = a.params.expected

/-- An annotation without bounds has been read from a table without a version. -/
def AnnotationEntry.Tidy (a : AnnotationEntry V) : Prop :=
  a.versionMin = none → a.versionMax = none → a.params.version = none

section
variable {semver} (v w : V)

lemma AnnotationEntry.ReadsAs.period_eq {tables : CaseTables} {a b : AnnotationEntry V} (reads : a.ReadsAs b) :
    b.period semver tables = a.period semver tables := by
  rw [AnnotationEntry.period, AnnotationEntry.period, AnnotationEntry.getExpectedResult, AnnotationEntry.getExpectedResult,
    reads.versionMin, reads.versionMax, reads.expected]

lemma lt_not_mem_print : '<' ∉ (semver.print v).toList := fun mem => (semver.plain v _ mem).1 rfl

lemma takeWhile_print (rest : List Char) :
    ((semver.print v).toList ++ ',' :: rest).takeWhile (· != ',') = (semver.print v).toList := by
  rw [List.takeWhile_append_of_pos]
  · simp
  · intro c mem
    simpa using (semver.plain v c mem).2.2

lemma takeWhile_print_self : (semver.print v).toList.takeWhile (· != ',') = (semver.print v).toList := by
  rw [List.takeWhile_eq_self_iff]
  intro c mem
  simpa using (semver.plain v c mem).2.2

lemma dropWhile_lt {start : List Char} (none : '<' ∉ start) (rest : List Char) :
    (start ++ '<' :: rest).dropWhile (· != '<') = '<' :: rest := by
  rw [List.dropWhile_append_of_pos]
  · simp
  · intro c mem
    simp only [bne_iff_ne]
    rintro rfl
    exact none mem

lemma getMinVersionBound_ge : getMinVersionBound semver (some (">=" ++ semver.print v)) = some (some v) := by
  have text : (">=" ++ semver.print v).toList = '>' :: '=' :: (semver.print v).toList := by
    rw [String.toList_append]
    rfl
  rw [getMinVersionBound, text, if_pos (by simp [List.isPrefixOf])]
  simp only [List.drop_succ_cons, List.drop_zero]
  rw [takeWhile_print_self, String.ofList_toList, semver.parse_print, Option.map_some]

lemma getMinVersionBound_between :
    getMinVersionBound semver (some (">=" ++ semver.print v ++ ",<" ++ semver.print w)) = some (some v) := by
  have text : (">=" ++ semver.print v ++ ",<" ++ semver.print w).toList =
      '>' :: '=' :: ((semver.print v).toList ++ ',' :: '<' :: (semver.print w).toList) := by
    simp only [String.toList_append, List.append_assoc]
    rfl
  rw [getMinVersionBound, text, if_pos (by simp [List.isPrefixOf])]
  simp only [List.drop_succ_cons, List.drop_zero]
  rw [takeWhile_print, String.ofList_toList, semver.parse_print, Option.map_some]

lemma getMinVersionBound_lt : getMinVersionBound semver (some ("<" ++ semver.print w)) = some none := by
  have text : ("<" ++ semver.print w).toList = '<' :: (semver.print w).toList := by
    rw [String.toList_append]
    rfl
  rw [getMinVersionBound, text, if_neg (by simp [List.isPrefixOf]), if_pos (by simp [List.isPrefixOf])]

lemma getMaxVersionBound_ge : getMaxVersionBound semver (some (">=" ++ semver.print v)) = some none := by
  rw [getMaxVersionBound, if_pos]
  rw [String.toList_append, List.mem_append, not_or]
  exact ⟨by decide, lt_not_mem_print v⟩

/-- The upper bound is read from behind the first `<`. -/
lemma getMaxVersionBound_of {start : String} (none : '<' ∉ start.toList) :
    getMaxVersionBound semver (some (start ++ "<" ++ semver.print w)) = some (some w) := by
  have text : (start ++ "<" ++ semver.print w).toList = start.toList ++ '<' :: (semver.print w).toList := by
    simp only [String.toList_append, List.append_assoc]
    rfl
  rw [getMaxVersionBound, text, if_neg (by simp), dropWhile_lt none, List.tail_cons, String.ofList_toList,
    semver.parse_print, Option.map_some]

lemma getMaxVersionBound_between :
    getMaxVersionBound semver (some (">=" ++ semver.print v ++ ",<" ++ semver.print w)) = some (some w) := by
  have none : '<' ∉ (">=" ++ semver.print v ++ ",").toList := by
    simp only [String.toList_append, List.mem_append, not_or]
    exact ⟨⟨by decide, lt_not_mem_print v⟩, by decide⟩
  have text : ">=" ++ semver.print v ++ ",<" ++ semver.print w = ">=" ++ semver.print v ++ "," ++ "<" ++ semver.print w := by
    rw [← String.toList_inj]
    simp only [String.toList_append, List.append_assoc]
    rfl
  rw [text]
  exact getMaxVersionBound_of w none

lemma getMaxVersionBound_lt : getMaxVersionBound semver (some ("<" ++ semver.print w)) = some (some w) := by
  have none : '<' ∉ "".toList := List.not_mem_nil
  have bound : getMaxVersionBound semver (some ("" ++ "<" ++ semver.print w)) = some (some w) :=
    getMaxVersionBound_of w none
  rwa [String.empty_append] at bound

/-- What is written of an annotation can be read, and has the same bounds. -/
lemma ofParams_toToml {a : AnnotationEntry V} (tidy : a.Tidy) :
    ∃ b, AnnotationEntry.ofParams semver (a.toToml semver) = some b ∧ a.ReadsAs b ∧ b.Tidy := by
  obtain ⟨versionMin, versionMax, expected, version⟩ := a
  cases versionMin with
  | none =>
    cases versionMax with
    | none =>
      cases tidy rfl rfl
      exact ⟨_, rfl, ⟨rfl, rfl, rfl⟩, fun _ _ => rfl⟩
    | some max =>
      refine ⟨⟨none, some max, ⟨expected, some ("<" ++ semver.print max)⟩⟩, ?_, ⟨rfl, rfl, rfl⟩, ?_⟩
      · rw [AnnotationEntry.toToml, AnnotationEntry.ofParams, getMinVersionBound_lt, getMaxVersionBound_lt]
        rfl
      · intro _ none
        cases none
  | some min =>
    cases versionMax with
    | none =>
      refine ⟨⟨some min, none, ⟨expected, some (">=" ++ semver.print min)⟩⟩, ?_, ⟨rfl, rfl, rfl⟩, ?_⟩
      · rw [AnnotationEntry.toToml, AnnotationEntry.ofParams, getMinVersionBound_ge, getMaxVersionBound_ge]
        rfl
      · intro none
        cases none
    | some max =>
      refine ⟨⟨some min, some max, ⟨expected, some (">=" ++ semver.print min ++ ",<" ++ semver.print max)⟩⟩, ?_,
        ⟨rfl, rfl, rfl⟩, ?_⟩
      · rw [AnnotationEntry.toToml, AnnotationEntry.ofParams, getMinVersionBound_between, getMaxVersionBound_between]
        rfl
      · intro none
        cases none

end

variable [LinearOrder P]

/-- Python `is_valid_for_version`. -/
def AnnotationEntry.isValidForVersion (a : AnnotationEntry V) : Option V → Bool
  | none => true
  | some version =>
    match a.versionMin, a.versionMax with
    | none, none => true
    | none, some max => semver.precedence version < semver.precedence max
    | some min, none => semver.precedence min ≤ semver.precedence version
    | some min, some max =>
      semver.precedence min ≤ semver.precedence version && semver.precedence version < semver.precedence max

/-! ## Reading and judging -/

/-- What is filed under an id. -/
def annotationsOf {A : Type} (id : String) (annotations : List (String × List A)) : List A :=
  (annotations.lookup id).getD []

/-- Changes what is filed under an id. -/
def updateAnnotations {A : Type} (id : String) (f : List A → List A) : List (String × List A) → List (String × List A)
  | [] => [(id, f [])]
  | e :: rest => if e.1 = id then (id, f e.2) :: rest else e :: updateAnnotations id f rest

/-- Python `get_annotations_for_game`, if it doesn't raise. -/
def getAnnotationsForGame (file : AnnotationsFile) (version : Option V) : Option (List (String × List (AnnotationEntry V))) :=
  file.mapM fun e => do
    let annotations ← e.2.mapM (AnnotationEntry.ofParams semver)
    return (e.1, annotations.filter fun a => a.isValidForVersion semver version)

/-- The loop of `_test_id`, with what is written reversed. -/
def normalizeSeeds (written : List Char) (inSeed : Bool) : List Char → List Char
  | [] => written.reverse
  | c :: rest =>
    if inSeed && c.isDigit then normalizeSeeds written true rest
    else if c.isDigit && "seed=".toList.reverse.isPrefixOf written then
      normalizeSeeds ("<random>".toList.reverse ++ written) true rest
    else normalizeSeeds (c :: written) false rest

/-- Python `_test_id`. -/
def testId (id : String) : String := String.ofList (normalizeSeeds [] false id.toList)

example : testId "test_fill (seed=12) (seed=x)" = "test_fill (seed=<random>) (seed=x)" := by decide

/-- Python `_get_annotation`. -/
def getAnnotationEntry (annotations : List (String × List (AnnotationEntry V))) (id : String) (version : Option V) :
    Option (AnnotationEntry V) :=
  (annotationsOf (testId id) annotations).find? fun a => version.isNone || a.isValidForVersion semver version

/-- Python `_expected_result`. -/
def expectedResult (annotations : List (String × List (AnnotationEntry V))) (id : String) : String :=
  match getAnnotationEntry semver annotations id none with
  | none => "success"
  | some annotation => annotation.getExpectedResult tables

/-- Python `_shouldIgnoreResult`. -/
def shouldIgnoreResult (annotations : List (String × List (AnnotationEntry V))) (ev : TestEvent) : Bool :=
  expectedResult semver tables annotations ev.id == "flaky" ||
    match ev.testCase with
    | some testCase => expectedResult semver tables annotations testCase == "error"
    | none => false

/-- Python `addSuccess`, `addFailure` and `addError`. -/
def addResult (annotations : List (String × List (AnnotationEntry V))) (results : TestResults) (ev : TestEvent) :
    TestResults :=
  if shouldIgnoreResult semver tables annotations ev then results
  else if expectedResult semver tables annotations ev.id == ev.observed.text then results
  else
    match ev.observed with
    | .success => { results with unexpectedSuccesses := results.unexpectedSuccesses ++ [ev.id] }
    | .fail => { results with failures := results.failures ++ [ev.id] }
    | .error => { results with errors := results.errors ++ [ev.id] }

/-- The results of a run. -/
def judge (annotations : List (String × List (AnnotationEntry V))) (events : List TestEvent) : TestResults :=
  events.foldl (addResult semver tables annotations) ⟨[], [], []⟩

/-! ## New expectations -/

/-- The results that were not expected, in the order in which they are written down. -/
def TestResults.unexpected (results : TestResults) : List (String × Observed) :=
  results.failures.map (·, .fail) ++ results.errors.map (·, .error) ++ results.unexpectedSuccesses.map (·, .success)

/-- Marks the first annotation that applies at a version as being valid up to it. -/
def markUpTo (version : V) : List (AnnotationEntry V) → List (AnnotationEntry V)
  | [] => []
  | a :: rest =>
    if a.isValidForVersion semver (some version) then { a with versionMax := some version } :: rest
    else a :: markUpTo version rest

/-- The turn of `_get_new_expectations_from` for one result. -/
def newExpectation (currentVersion : V) (annotations : List (String × List (AnnotationEntry V))) (result : String × Observed) :
    List (String × List (AnnotationEntry V)) :=
  let new : AnnotationEntry V := ⟨some currentVersion, none, ⟨result.2.text, none⟩⟩
  match getAnnotationEntry semver annotations result.1 (some currentVersion) with
  | none =>
    if result.2 = .success then annotations else updateAnnotations (testId result.1) (· ++ [new]) annotations
  | some currentAnnotation =>
    let annotations :=
      if currentAnnotation.getExpectedResult tables ≠ result.2.text then
        updateAnnotations (testId result.1) (markUpTo semver currentVersion) annotations
      else annotations
    if result.2 = .success then annotations else updateAnnotations (testId result.1) (· ++ [new]) annotations

/-- Python `_get_new_expectations_from`, if it doesn't raise. -/
def getNewExpectationsFrom (file : AnnotationsFile) (results : TestResults) (currentVersion : V) :
    Option AnnotationsFile := do
  let annotations ← getAnnotationsForGame semver file none
  return (results.unexpected.foldl (newExpectation semver tables currentVersion) annotations).map fun e =>
    (e.1, e.2.map (AnnotationEntry.toToml semver))

/-- A run of the tests: they are judged by the file, and it is written anew. -/
def runTests (file : AnnotationsFile) (run : TestRun V) : Option AnnotationsFile := do
  let annotations ← getAnnotationsForGame semver file (some run.version)
  getNewExpectationsFrom semver tables file (judge semver tables annotations run.events) run.version

/-! ## Annotations as periods -/

/-- The annotations of a test as a timeline. -/
def lineOf (annotations : List (String × List (AnnotationEntry V))) (key : String) : List (Period P String) :=
  (annotationsOf key annotations).map (AnnotationEntry.period semver tables)

variable {semver tables}

variable (tables) in
lemma isValidForVersion_eq (a : AnnotationEntry V) (v : V) :
    a.isValidForVersion semver (some v) = (a.period semver tables).holds (semver.precedence v) := by
  obtain ⟨versionMin, versionMax, params⟩ := a
  cases versionMin <;> cases versionMax <;> simp [AnnotationEntry.isValidForVersion, AnnotationEntry.period, Period.holds]

/-! ## Files -/

section
variable {A B : Type} {key key' : String}

lemma annotationsOf_cons (e : String × List A) (l : List (String × List A)) :
    annotationsOf key (e :: l) = if key = e.1 then e.2 else annotationsOf key l := by
  rw [annotationsOf, List.lookup_cons]
  by_cases here : key = e.1
  · rw [if_pos here, beq_iff_eq.mpr here, Option.getD_some]
  · rw [if_neg here, beq_eq_false_iff_ne.mpr here, annotationsOf]

lemma annotationsOf_update (f : List A → List A) (l : List (String × List A)) :
    annotationsOf key' (updateAnnotations key f l) =
      if key' = key then f (annotationsOf key l) else annotationsOf key' l := by
  induction l with
  | nil =>
    rw [updateAnnotations, annotationsOf_cons]
    rfl
  | cons e l ih =>
    rw [updateAnnotations]
    split
    case isTrue here =>
      rw [annotationsOf_cons, annotationsOf_cons, annotationsOf_cons, if_pos here.symm, here]
      split
      case isTrue => rfl
      case isFalse => rfl
    case isFalse away =>
      rw [annotationsOf_cons, annotationsOf_cons, annotationsOf_cons, if_neg (Ne.symm away), ih]
      split
      case isTrue own =>
        rw [if_neg]
        rintro rfl
        exact away own.symm
      case isFalse => rfl

lemma annotationsOf_map (f : List A → List B) (nil : f [] = []) (l : List (String × List A)) :
    annotationsOf key (l.map fun e => (e.1, f e.2)) = f (annotationsOf key l) := by
  induction l with
  | nil => exact nil.symm
  | cons e l ih =>
    rw [List.map_cons, annotationsOf_cons, annotationsOf_cons, ih]
    split
    case isTrue => rfl
    case isFalse => rfl

lemma annotationsOf_forall₂ {R : A → B → Prop} {l : List (String × List A)} {l' : List (String × List B)}
    (related : List.Forall₂ (fun e e' => e.1 = e'.1 ∧ List.Forall₂ R e.2 e'.2) l l') :
    List.Forall₂ R (annotationsOf key l) (annotationsOf key l') := by
  induction related with
  | nil => exact .nil
  | cons here _ ih =>
    rw [annotationsOf_cons, annotationsOf_cons, ← here.1]
    split
    case isTrue => exact here.2
    case isFalse => exact ih

end

/-! ## Reading and writing -/

lemma getAnnotationsForGame_cons (e : String × List Params) (file : AnnotationsFile) (version : Option V) :
    getAnnotationsForGame semver (e :: file) version = (e.2.mapM (AnnotationEntry.ofParams semver)).bind fun annotations =>
      (getAnnotationsForGame semver file version).map fun rest =>
        (e.1, annotations.filter fun a => a.isValidForVersion semver version) :: rest := by
  rw [getAnnotationsForGame, List.mapM_cons]
  cases e.2.mapM (AnnotationEntry.ofParams semver) with
  | none => rfl
  | some annotations =>
    rw [Option.bind_some, getAnnotationsForGame]
    exact (Option.map_eq_bind ..).symm

/-- Without a version everything is read. -/
lemma filter_isValidForVersion_none (annotations : List (AnnotationEntry V)) :
    annotations.filter (fun a => a.isValidForVersion semver none) = annotations :=
  List.filter_eq_self.mpr fun _ _ => rfl

variable (semver) in
/-- The annotations that are read for a version. -/
def validFor (annotations : List (String × List (AnnotationEntry V))) (v : V) : List (String × List (AnnotationEntry V)) :=
  annotations.map fun e => (e.1, e.2.filter fun a => a.isValidForVersion semver (some v))

/-- Reading a file for a version leaves out what doesn't apply. -/
lemma getAnnotationsForGame_version {file : AnnotationsFile} {annotations : List (String × List (AnnotationEntry V))}
    (read : getAnnotationsForGame semver file none = some annotations) (v : V) :
    getAnnotationsForGame semver file (some v) = some (validFor semver annotations v) := by
  induction file generalizing annotations with
  | nil =>
    cases read
    rfl
  | cons e file ih =>
    rw [getAnnotationsForGame_cons, Option.bind_eq_some_iff] at read
    obtain ⟨here, readHere, rest⟩ := read
    obtain ⟨others, readOthers, rfl⟩ := Option.map_eq_some_iff.mp rest
    rw [getAnnotationsForGame_cons, readHere, Option.bind_some, ih readOthers, Option.map_some, validFor, validFor,
      List.map_cons, filter_isValidForVersion_none]

/-- Every annotation of a file is tidy. -/
def AllTidy (annotations : List (String × List (AnnotationEntry V))) : Prop := ∀ e ∈ annotations, ∀ a ∈ e.2, a.Tidy

/-- An annotation, and what it is read as again. -/
def AnnotationEntry.Again (a b : AnnotationEntry V) : Prop := a.ReadsAs b ∧ b.Tidy

variable (semver) in
lemma getAnnotationsForGame_map_toToml {annotations : List (String × List (AnnotationEntry V))} (tidy : AllTidy annotations) :
    ∃ read, getAnnotationsForGame semver (annotations.map fun e => (e.1, e.2.map (AnnotationEntry.toToml semver))) none =
        some read ∧
      List.Forall₂ (fun e e' => e.1 = e'.1 ∧ List.Forall₂ AnnotationEntry.Again e.2 e'.2) annotations read := by
  induction annotations with
  | nil => exact ⟨[], rfl, .nil⟩
  | cons e annotations ih =>
    obtain ⟨rest, readRest, relatedRest⟩ := ih fun e mem => tidy e (List.mem_cons_of_mem _ mem)
    obtain ⟨here, readHere, related⟩ := Pointwise.exists_mapM (R := AnnotationEntry.Again)
      (f := AnnotationEntry.ofParams semver ∘ AnnotationEntry.toToml semver)
      fun a mem => ofParams_toToml (tidy e List.mem_cons_self a mem)
    refine ⟨(e.1, here) :: rest, ?_, .cons ⟨rfl, related⟩ relatedRest⟩
    rw [List.map_cons, getAnnotationsForGame_cons, List.mapM_map, readHere, Option.bind_some, readRest, Option.map_some,
      filter_isValidForVersion_none]

variable (semver tables) in
/-- What is written is read again, with the same timelines. -/
lemma getAnnotationsForGame_written {annotations : List (String × List (AnnotationEntry V))} (tidy : AllTidy annotations) :
    ∃ read, getAnnotationsForGame semver (annotations.map fun e => (e.1, e.2.map (AnnotationEntry.toToml semver))) none =
        some read ∧
      AllTidy read ∧ ∀ key, lineOf semver tables read key = lineOf semver tables annotations key := by
  obtain ⟨read, eq, related⟩ := getAnnotationsForGame_map_toToml semver tidy
  refine ⟨read, eq, ?_, ?_⟩
  · intro e mem b memB
    obtain ⟨_, _, _, relatedHere⟩ := Pointwise.exists_left related mem
    obtain ⟨_, _, _, tidyB⟩ := Pointwise.exists_left relatedHere memB
    exact tidyB
  · intro key
    exact Pointwise.map_eq (fun a b again => again.1.period_eq) (annotationsOf_forall₂ related)

/-! ## What is expected -/

/-- The expected result of a test, from its timeline. -/
lemma find?_eq_valueAt {annotations : List (AnnotationEntry V)} {v : V} :
    (annotations.find? fun a => a.isValidForVersion semver (some v)).map (AnnotationEntry.getExpectedResult tables) =
      Timeline.valueAt (semver.precedence v) (annotations.map (AnnotationEntry.period semver tables)) := by
  induction annotations with
  | nil => rfl
  | cons a annotations ih =>
    rw [List.map_cons, Timeline.valueAt_cons, List.find?_cons, isValidForVersion_eq tables]
    split
    case h_1 here =>
      rw [if_pos here]
      rfl
    case h_2 away => rw [if_neg (by rw [away]; decide), ih]

variable (semver tables) in
lemma getAnnotationEntry_version (annotations : List (String × List (AnnotationEntry V))) (id : String) (v : V) :
    (getAnnotationEntry semver annotations id (some v)).map (AnnotationEntry.getExpectedResult tables) =
      Timeline.valueAt (semver.precedence v) (lineOf semver tables annotations (testId id)) := by
  rw [getAnnotationEntry, lineOf, ← find?_eq_valueAt]
  simp only [Option.isNone_some, Bool.false_or]

/-- What is expected at the version of a run is the value of the timeline there. -/
lemma expectedResult_validFor (annotations : List (String × List (AnnotationEntry V))) (id : String) (v : V) :
    expectedResult semver tables (validFor semver annotations v) id =
      (Timeline.valueAt (semver.precedence v) (lineOf semver tables annotations (testId id))).getD "success" := by
  have first : getAnnotationEntry semver (validFor semver annotations v) id none =
      getAnnotationEntry semver annotations id (some v) := by
    rw [getAnnotationEntry, getAnnotationEntry, validFor, annotationsOf_map _ rfl, List.find?_filter]
    simp
  rw [← getAnnotationEntry_version, expectedResult, first]
  cases getAnnotationEntry semver annotations id (some v) with
  | none => rfl
  | some a => rfl

/-! ## Writing an expectation -/

/-- The value that is recorded for a result; a success is not written down. -/
def Observed.value : Observed → Option String
  | success => none
  | observed => some observed.text

lemma toLowercase_text (observed : Observed) : tables.toLowercase observed.text = observed.text := by
  cases observed <;> exact Lowercase.toLowercase_of_ascii (by simp [Observed.text])

lemma map_markUpTo (annotations : List (AnnotationEntry V)) (v : V) :
    (markUpTo semver v annotations).map (AnnotationEntry.period semver tables) =
      Timeline.closeFirst (semver.precedence v) (annotations.map (AnnotationEntry.period semver tables)) := by
  induction annotations with
  | nil => rfl
  | cons a annotations ih =>
    rw [markUpTo, List.map_cons, Timeline.closeFirst, isValidForVersion_eq tables]
    split
    case isTrue => rfl
    case isFalse => rw [List.map_cons, ih]

omit [LinearOrder P] in
lemma lineOf_update (f : List (AnnotationEntry V) → List (AnnotationEntry V))
    (annotations : List (String × List (AnnotationEntry V))) (key key' : String) :
    lineOf semver tables (updateAnnotations key f annotations) key' =
      if key' = key then (f (annotationsOf key annotations)).map (AnnotationEntry.period semver tables)
      else lineOf semver tables annotations key' := by
  rw [lineOf, annotationsOf_update]
  split
  case isTrue => rfl
  case isFalse => rfl

omit [LinearOrder P] in
/-- A new annotation is for the versions from the one of the run on. -/
lemma lineOf_append (annotations : List (String × List (AnnotationEntry V))) (v : V) (observed : Observed)
    (key key' : String) :
    lineOf semver tables
        (if observed = .success then annotations
          else updateAnnotations key (· ++ [⟨some v, none, ⟨observed.text, none⟩⟩]) annotations) key' =
      if key' = key then
        lineOf semver tables annotations key ++ observed.value.toList.map fun a => ⟨some (semver.precedence v), none, a⟩
      else lineOf semver tables annotations key' := by
  have written : observed ≠ .success → observed.value = some observed.text := by
    intro other
    cases observed with
    | success => exact absurd rfl other
    | fail => rfl
    | error => rfl
  split
  case isTrue success =>
    rw [success, Observed.value, Option.toList_none, List.map_nil, List.append_nil]
    split
    case isTrue here => rw [here]
    case isFalse => rfl
  case isFalse other =>
    rw [lineOf_update, List.map_append, written other, Option.toList_some, List.map_singleton, List.map_singleton,
      AnnotationEntry.period, AnnotationEntry.getExpectedResult, toLowercase_text]
    rfl

/-- What is written of a result that was not expected. -/
lemma lineOf_newExpectation {annotations : List (String × List (AnnotationEntry V))} {v : V} {id : String}
    {observed : Observed}
    (other : (Timeline.valueAt (semver.precedence v) (lineOf semver tables annotations (testId id))).getD "success" ≠
      observed.text) (key : String) :
    lineOf semver tables (newExpectation semver tables v annotations (id, observed)) key =
      if key = testId id then
        Timeline.record (semver.precedence v) observed.value (lineOf semver tables annotations (testId id))
      else lineOf semver tables annotations key := by
  have value := getAnnotationEntry_version semver tables annotations id v
  rw [← value] at other
  rw [newExpectation, Timeline.record]
  cases current : getAnnotationEntry semver annotations id (some v) with
  | none =>
    rw [current, Option.map_none] at value
    rw [lineOf_append, Timeline.closeFirst_of_valueAt_eq_none value.symm]
  | some annotation =>
    rw [current] at other
    have other : annotation.getExpectedResult tables ≠ observed.text := other
    dsimp only
    rw [lineOf_append, if_pos other, lineOf_update, lineOf_update, if_pos rfl, map_markUpTo]
    split
    case isTrue => rfl
    case isFalse => rfl

lemma updateAnnotations_tidy {f : List (AnnotationEntry V) → List (AnnotationEntry V)}
    (keeps : ∀ l : List (AnnotationEntry V), (∀ a ∈ l, a.Tidy) → ∀ a ∈ f l, a.Tidy) (key : String)
    {annotations : List (String × List (AnnotationEntry V))} (tidy : AllTidy annotations) :
    AllTidy (updateAnnotations key f annotations) := by
  induction annotations with
  | nil =>
    rw [updateAnnotations]
    intro e mem
    cases List.mem_singleton.mp mem
    exact keeps [] fun _ none => absurd none List.not_mem_nil
  | cons e annotations ih =>
    have here := tidy e List.mem_cons_self
    have rest : AllTidy annotations := fun e mem => tidy e (List.mem_cons_of_mem _ mem)
    rw [updateAnnotations]
    split
    case isTrue =>
      intro e' mem
      rcases List.mem_cons.mp mem with rfl | mem
      · exact keeps _ here
      · exact rest e' mem
    case isFalse =>
      intro e' mem
      rcases List.mem_cons.mp mem with rfl | mem
      · exact here
      · exact ih rest e' mem

lemma markUpTo_tidy (v : V) {annotations : List (AnnotationEntry V)} (tidy : ∀ a ∈ annotations, a.Tidy) :
    ∀ a ∈ markUpTo semver v annotations, a.Tidy := by
  induction annotations with
  | nil => exact tidy
  | cons a annotations ih =>
    have rest : ∀ a ∈ annotations, a.Tidy := fun a mem => tidy a (List.mem_cons_of_mem _ mem)
    rw [markUpTo]
    split
    case isTrue =>
      intro b mem
      rcases List.mem_cons.mp mem with rfl | mem
      · intro _ none
        cases none
      · exact rest b mem
    case isFalse =>
      intro b mem
      rcases List.mem_cons.mp mem with rfl | mem
      · exact tidy _ List.mem_cons_self
      · exact ih rest b mem

/-- What is written stays tidy. -/
lemma newExpectation_tidy {annotations : List (String × List (AnnotationEntry V))} (tidy : AllTidy annotations) (v : V)
    (result : String × Observed) : AllTidy (newExpectation semver tables v annotations result) := by
  have append : ∀ {annotations : List (String × List (AnnotationEntry V))}, AllTidy annotations →
      AllTidy (if result.2 = .success then annotations
        else updateAnnotations (testId result.1) (· ++ [⟨some v, none, ⟨result.2.text, none⟩⟩]) annotations) := by
    intro annotations tidy
    split
    case isTrue => exact tidy
    case isFalse =>
      refine updateAnnotations_tidy (fun l tidy a mem => ?_) _ tidy
      rcases List.mem_append.mp mem with mem | mem
      · exact tidy a mem
      · cases List.mem_singleton.mp mem
        intro none
        cases none
  rw [newExpectation]
  cases getAnnotationEntry semver annotations result.1 (some v) with
  | none => exact append tidy
  | some annotation =>
    apply append
    split
    case isTrue => exact updateAnnotations_tidy (fun l => markUpTo_tidy v) _ tidy
    case isFalse => exact tidy

/-! ## The results of a run -/

variable (semver tables) in
/-- A test that is judged, and what it came to is not expected. -/
def Unexpected (annotations : List (String × List (AnnotationEntry V))) (ev : TestEvent) : Prop :=
  shouldIgnoreResult semver tables annotations ev = false ∧
    expectedResult semver tables annotations ev.id ≠ ev.observed.text

lemma mem_addResult (annotations : List (String × List (AnnotationEntry V))) (results : TestResults) (ev : TestEvent)
    (result : String × Observed) :
    result ∈ (addResult semver tables annotations results ev).unexpected ↔
      result ∈ results.unexpected ∨ Unexpected semver tables annotations ev ∧ result = (ev.id, ev.observed) := by
  rw [addResult, Unexpected]
  split
  case isTrue ignored =>
    rw [ignored]
    simp
  case isFalse judged =>
    rw [Bool.not_eq_true] at judged
    split
    case isTrue expected =>
      rw [beq_iff_eq] at expected
      simp [expected]
    case isFalse other =>
      rw [beq_iff_eq] at other
      rw [and_iff_right ⟨judged, other⟩]
      cases ev.observed <;>
        simp only [TestResults.unexpected, List.map_append, List.map_singleton, List.mem_append, List.mem_singleton] <;>
        tauto

/-- A result was not expected exactly if it is one of a test that is judged, and something else is expected. -/
lemma mem_judge (annotations : List (String × List (AnnotationEntry V))) (events : List TestEvent)
    (result : String × Observed) :
    result ∈ (judge semver tables annotations events).unexpected ↔
      ∃ ev ∈ events, Unexpected semver tables annotations ev ∧ result = (ev.id, ev.observed) := by
  suffices from_ : ∀ results, result ∈ (events.foldl (addResult semver tables annotations) results).unexpected ↔
      result ∈ results.unexpected ∨
        ∃ ev ∈ events, Unexpected semver tables annotations ev ∧ result = (ev.id, ev.observed) by
    rw [judge, from_]
    simp [TestResults.unexpected]
  induction events with
  | nil => simp
  | cons ev events ih =>
    intro results
    rw [List.foldl_cons, ih, mem_addResult, List.exists_mem_cons_iff, or_assoc]

/-! ## The timelines after a run -/

variable (semver tables) in
/-- What was found at a version is recorded, and nothing else. -/
structure Recorded (v : V) (results : List (String × Observed))
    (annotations annotations' : List (String × List (AnnotationEntry V))) : Prop where
  here : ∀ r ∈ results, lineOf semver tables annotations' (testId r.1) =
    Timeline.record (semver.precedence v) r.2.value (lineOf semver tables annotations (testId r.1))
  away : ∀ key, (∀ r ∈ results, testId r.1 ≠ key) →
    lineOf semver tables annotations' key = lineOf semver tables annotations key

variable (semver tables) in
lemma recorded_foldl {v : V} {results : List (String × Observed)} {annotations : List (String × List (AnnotationEntry V))}
    (nodup : (results.map fun r => testId r.1).Nodup)
    (other : ∀ r ∈ results, (Timeline.valueAt (semver.precedence v)
      (lineOf semver tables annotations (testId r.1))).getD "success" ≠ r.2.text) :
    Recorded semver tables v results annotations (results.foldl (newExpectation semver tables v) annotations) := by
  induction results generalizing annotations with
  | nil => exact ⟨fun _ mem => absurd mem List.not_mem_nil, fun _ _ => rfl⟩
  | cons r results ih =>
    rw [List.map_cons, List.nodup_cons] at nodup
    have line := lineOf_newExpectation (other r List.mem_cons_self)
    have apart : ∀ r' ∈ results, testId r'.1 ≠ testId r.1 := fun r' mem same =>
      nodup.1 (List.mem_map.mpr ⟨r', mem, same⟩)
    -- a result of another test leaves the timelines of the tests that are still to come
    have others : ∀ r' ∈ results, (Timeline.valueAt (semver.precedence v)
        (lineOf semver tables (newExpectation semver tables v annotations r) (testId r'.1))).getD "success" ≠ r'.2.text := by
      intro r' mem
      rw [line, if_neg (apart r' mem)]
      exact other r' (List.mem_cons_of_mem _ mem)
    have rest := ih nodup.2 others
    rw [List.foldl_cons]
    constructor
    · intro r' mem
      rcases List.mem_cons.mp mem with rfl | mem
      · rw [rest.away _ apart, line, if_pos rfl]
      · rw [rest.here r' mem, line, if_neg (apart r' mem)]
    · intro key away
      rw [rest.away key fun r' mem => away r' (List.mem_cons_of_mem _ mem), line,
        if_neg (Ne.symm (away r List.mem_cons_self))]

variable (semver tables) in
lemma foldl_newExpectation_tidy {annotations : List (String × List (AnnotationEntry V))} (tidy : AllTidy annotations) (v : V)
    (results : List (String × Observed)) : AllTidy (results.foldl (newExpectation semver tables v) annotations) := by
  induction results generalizing annotations with
  | nil => exact tidy
  | cons r results ih => exact ih (newExpectation_tidy tidy v r)

section
variable (semver tables)

/-! ## Runs -/

/-- What is expected of a test at a version. -/
def expectedAt (file : AnnotationsFile) (v : V) (id : String) : Option String :=
  (getAnnotationsForGame semver file (some v)).map fun annotations => expectedResult semver tables annotations id

/-- A test is judged, and not skipped. -/
def Judged (file : AnnotationsFile) (v : V) (ev : TestEvent) : Prop :=
  ∃ annotations, getAnnotationsForGame semver file (some v) = some annotations ∧
    shouldIgnoreResult semver tables annotations ev = false

/-- A run comes to at most one unexpected result for a test. -/
def OneUnexpected (file : AnnotationsFile) (run : TestRun V) : Prop :=
  ∀ annotations, getAnnotationsForGame semver file (some run.version) = some annotations →
    ((judge semver tables annotations run.events).unexpected.map fun r => testId r.1).Nodup

/-- What was written after a run describes it. -/
structure Describes (file : AnnotationsFile) (run : TestRun V) (file' : AnnotationsFile) : Prop where
  now : ∀ ev ∈ run.events, Judged semver tables file run.version ev →
    expectedAt semver tables file' run.version ev.id = some ev.observed.text
  earlier : ∀ id v, semver.precedence v < semver.precedence run.version →
    expectedAt semver tables file' v id = expectedAt semver tables file v id
  once : ∀ v annotations, getAnnotationsForGame semver file' (some v) = some annotations →
    ∀ key, (annotationsOf key annotations).length ≤ 1

/-- A run doesn't see a test in two ways, and sees no failure before what its test is annotated with for later. -/
structure InOrder (file : AnnotationsFile) (run : TestRun V) : Prop where
  sameResult : ∀ ev ∈ run.events, ∀ ev' ∈ run.events, Judged semver tables file run.version ev →
    Judged semver tables file run.version ev' → testId ev.id = testId ev'.id → ev.observed = ev'.observed
  nothingLater : ∀ ev ∈ run.events, Judged semver tables file run.version ev → ev.observed ≠ .success →
    expectedAt semver tables file run.version ev.id ≠ some ev.observed.text →
      ∀ annotations, getAnnotationsForGame semver file none = some annotations →
        ∀ a ∈ annotationsOf (testId ev.id) annotations, a.isValidForVersion semver (some run.version) = false →
          ∀ v, semver.precedence run.version < semver.precedence v → a.isValidForVersion semver (some v) = false

/-- A condition on each run and the file before it. -/
def EachRun (condition : AnnotationsFile → TestRun V → Prop) : AnnotationsFile → List (TestRun V) → Prop
  | _, [] => True
  | file, run :: runs =>
    condition file run ∧ ∀ file', runTests semver tables file run = some file' → EachRun condition file' runs

/-- Every run ends, and what it wrote describes it. -/
def EachDescribed : AnnotationsFile → List (TestRun V) → Prop
  | _, [] => True
  | file, run :: runs => ∃ file', runTests semver tables file run = some file' ∧
      Describes semver tables file run file' ∧ EachDescribed file' runs

/-- A file that can be read and written, with one annotation at most for a test and a version. -/
structure Fit (file : AnnotationsFile) (annotations : List (String × List (AnnotationEntry V))) : Prop where
  read : getAnnotationsForGame semver file none = some annotations
  tidy : AllTidy annotations
  apart : ∀ key, Timeline.Apart (lineOf semver tables annotations key)

end

variable {file file' : AnnotationsFile} {annotations annotations' : List (String × List (AnnotationEntry V))}
  {run : TestRun V}

lemma expectedAt_eq (read : getAnnotationsForGame semver file none = some annotations) (v : V) (id : String) :
    expectedAt semver tables file v id =
      some ((Timeline.valueAt (semver.precedence v) (lineOf semver tables annotations (testId id))).getD "success") := by
  rw [expectedAt, getAnnotationsForGame_version read, Option.map_some, expectedResult_validFor]

lemma judged_iff (read : getAnnotationsForGame semver file none = some annotations) (v : V) (ev : TestEvent) :
    Judged semver tables file v ev ↔ shouldIgnoreResult semver tables (validFor semver annotations v) ev = false := by
  rw [Judged, getAnnotationsForGame_version read]
  simp

/-- A run ends, and records what it found. -/
lemma runTests_recorded (fit : Fit semver tables file annotations) (once : OneUnexpected semver tables file run) :
    ∃ file' annotations', runTests semver tables file run = some file' ∧
      getAnnotationsForGame semver file' none = some annotations' ∧ AllTidy annotations' ∧
      Recorded semver tables run.version
        (judge semver tables (validFor semver annotations run.version) run.events).unexpected annotations annotations' := by
  have nodup := once _ (getAnnotationsForGame_version fit.read _)
  have recorded := recorded_foldl semver tables (v := run.version) nodup fun r mem => by
    obtain ⟨ev, _, unexpected, rfl⟩ := (mem_judge _ _ _).mp mem
    rw [← expectedResult_validFor]
    exact unexpected.2
  obtain ⟨read', eq, tidy', lines⟩ := getAnnotationsForGame_written semver tables
    (foldl_newExpectation_tidy semver tables fit.tidy run.version _)
  refine ⟨_, read', ?_, eq, tidy', ?_⟩
  · rw [runTests, getAnnotationsForGame_version fit.read, Option.bind_eq_bind, Option.bind_some, getNewExpectationsFrom,
      fit.read]
    rfl
  · constructor
    · intro r mem
      rw [lines, recorded.here r mem]
    · intro key away
      rw [lines, recorded.away key away]

variable (tables) in
/-- Apart timelines are one annotation at most for each version. -/
lemma apart_iff (read : getAnnotationsForGame semver file none = some annotations) :
    (∀ key, Timeline.Apart (lineOf semver tables annotations key)) ↔
      ∀ v read', getAnnotationsForGame semver file (some v) = some read' → ∀ key, (annotationsOf key read').length ≤ 1 := by
  have count : ∀ v key, (lineOf semver tables annotations key).countP (fun p => p.holds (semver.precedence v)) =
      (annotationsOf key (validFor semver annotations v)).length := by
    intro v key
    rw [lineOf, List.countP_map, validFor, annotationsOf_map _ rfl, List.countP_eq_length_filter]
    simp only [Function.comp_def, isValidForVersion_eq tables]
  constructor
  · intro apart v read' readV key
    rw [getAnnotationsForGame_version read] at readV
    cases readV
    rw [← count]
    exact apart key _
  · intro once key u
    obtain ⟨v, rfl⟩ := semver.onto u
    rw [count]
    exact once v _ (getAnnotationsForGame_version read v) key

lemma nothingLater_iff {annotations : List (AnnotationEntry V)} {v : V} :
    Timeline.NothingLater (semver.precedence v) (annotations.map (AnnotationEntry.period semver tables)) ↔
      ∀ a ∈ annotations, a.isValidForVersion semver (some v) = false →
        ∀ u, semver.precedence v < semver.precedence u → a.isValidForVersion semver (some u) = false := by
  simp only [isValidForVersion_eq tables]
  constructor
  · intro later a mem here u lt
    exact later _ (List.mem_map_of_mem mem) here _ lt
  · intro later p found here t lt
    obtain ⟨a, mem, rfl⟩ := List.mem_map.mp found
    obtain ⟨u, rfl⟩ := semver.onto t
    exact later a mem here u lt

lemma observed_text_injective {observed observed' : Observed} (same : observed.text = observed'.text) :
    observed = observed' := by
  cases observed <;> cases observed' <;> first | rfl | exact absurd same (by decide)

lemma value_getD (observed : Observed) : observed.value.getD "success" = observed.text := by
  cases observed <;> rfl

lemma value_eq_none {observed : Observed} (none : observed.value = none) : observed = .success := by
  cases observed with
  | success => rfl
  | fail => cases none
  | error => cases none

/-- A timeline has a result recorded, or is as before. -/
lemma Recorded.cases {v : V} {results : List (String × Observed)}
    (recorded : Recorded semver tables v results annotations annotations') (key : String) :
    (∃ r ∈ results, testId r.1 = key ∧ lineOf semver tables annotations' key =
      Timeline.record (semver.precedence v) r.2.value (lineOf semver tables annotations key)) ∨
    lineOf semver tables annotations' key = lineOf semver tables annotations key := by
  by_cases found : ∃ r ∈ results, testId r.1 = key
  · obtain ⟨r, mem, rfl⟩ := found
    exact .inl ⟨r, mem, rfl, recorded.here r mem⟩
  · exact .inr (recorded.away key fun r mem same => found ⟨r, mem, same⟩)

lemma unexpected_iff (read : getAnnotationsForGame semver file none = some annotations) (v : V) (ev : TestEvent) :
    Unexpected semver tables (validFor semver annotations v) ev ↔
      Judged semver tables file v ev ∧ expectedAt semver tables file v ev.id ≠ some ev.observed.text := by
  rw [Unexpected, judged_iff read, expectedResult_validFor, expectedAt_eq read, Ne, Ne, Option.some_inj]

/-- A run that is described by what it wrote is in order. -/
lemma inOrder_of_describes (fit : Fit semver tables file annotations)
    (read' : getAnnotationsForGame semver file' none = some annotations')
    (recorded : Recorded semver tables run.version
      (judge semver tables (validFor semver annotations run.version) run.events).unexpected annotations annotations')
    (describes : Describes semver tables file run file') : InOrder semver tables file run := by
  have apart := (apart_iff tables read').mpr describes.once
  constructor
  · intro ev mem ev' mem' judged judged' same
    have now := describes.now ev mem judged
    have now' := describes.now ev' mem' judged'
    rw [expectedAt_eq read', same, ← expectedAt_eq read', now'] at now
    exact observed_text_injective (Option.some.inj now).symm
  · intro ev mem judged failure other read readNone
    rw [fit.read] at readNone
    cases readNone
    have found := (mem_judge _ _ _).mpr ⟨ev, mem, (unexpected_iff fit.read _ _).mpr ⟨judged, other⟩, rfl⟩
    rcases (Timeline.apart_record_iff (fit.apart _) _).mp (recorded.here _ found ▸ apart _) with none | later
    · exact absurd (value_eq_none none) failure
    · exact nothingLater_iff.mp later

/-- What a run that is in order wrote describes it. -/
lemma describes_of_inOrder (fit : Fit semver tables file annotations)
    (read' : getAnnotationsForGame semver file' none = some annotations')
    (recorded : Recorded semver tables run.version
      (judge semver tables (validFor semver annotations run.version) run.events).unexpected annotations annotations')
    (order : InOrder semver tables file run) : Describes semver tables file run file' := by
  constructor
  · intro ev mem judged
    by_cases expected : expectedAt semver tables file run.version ev.id = some ev.observed.text
    · rcases recorded.cases (testId ev.id) with ⟨r, found, same, _⟩ | line
      · -- Another result of the test was not expected, but it was the same.
        obtain ⟨ev', mem', unexpected, rfl⟩ := (mem_judge _ _ _).mp found
        obtain ⟨judged', other⟩ := (unexpected_iff fit.read _ _).mp unexpected
        rw [expectedAt_eq fit.read, show testId ev'.id = testId ev.id from same, ← expectedAt_eq fit.read, expected,
          order.sameResult ev mem ev' mem' judged judged' same.symm] at other
        exact absurd rfl other
      · rw [expectedAt_eq read', line, ← expectedAt_eq fit.read, expected]
    · -- the result was not expected, so it was recorded for the version of the run
      have found := (mem_judge _ _ _).mpr ⟨ev, mem, (unexpected_iff fit.read _ _).mpr ⟨judged, expected⟩, rfl⟩
      rw [expectedAt_eq read', recorded.here _ found, Timeline.valueAt_record_self (fit.apart _ _), value_getD]
  · intro id v lt
    rw [expectedAt_eq read', expectedAt_eq fit.read]
    rcases recorded.cases (testId id) with ⟨r, _, _, line⟩ | line
    · rw [line, Timeline.valueAt_record_of_lt lt]
    · rw [line]
  · refine (apart_iff tables read').mp fun key => ?_
    rcases recorded.cases key with ⟨r, found, rfl, line⟩ | line
    · rw [line, Timeline.apart_record_iff (fit.apart _)]
      obtain ⟨ev, mem, unexpected, rfl⟩ := (mem_judge _ _ _).mp found
      obtain ⟨judged, other⟩ := (unexpected_iff fit.read _ _).mp unexpected
      by_cases success : ev.observed = .success
      · exact .inl (by rw [success]; rfl)
      · exact .inr (nothingLater_iff.mpr (order.nothingLater ev mem judged success other _ fit.read))
    · rw [line]
      exact fit.apart key

lemma eachDescribed_iff (fit : Fit semver tables file annotations) (runs : List (TestRun V))
    (once : EachRun semver tables (OneUnexpected semver tables) file runs) :
    EachDescribed semver tables file runs ↔ EachRun semver tables (InOrder semver tables) file runs := by
  induction runs generalizing file annotations with
  | nil => exact Iff.rfl
  | cons run runs ih =>
    obtain ⟨onceHere, onceRest⟩ := once
    obtain ⟨file', annotations', ran, read', tidy', recorded⟩ := runTests_recorded fit onceHere
    -- only a file that describes its run is fit for the next one
    have fit' : Describes semver tables file run file' → Fit semver tables file' annotations' := fun describes =>
      ⟨read', tidy', (apart_iff tables read').mpr describes.once⟩
    rw [EachDescribed, EachRun]
    constructor
    · rintro ⟨after, ranAfter, describes, rest⟩
      cases Option.some.inj (ran.symm.trans ranAfter)
      refine ⟨inOrder_of_describes fit read' recorded describes, fun after ranAfter => ?_⟩
      cases Option.some.inj (ran.symm.trans ranAfter)
      exact (ih (fit' describes) (onceRest _ ran)).mp rest
    · rintro ⟨order, rest⟩
      have describes := describes_of_inOrder fit read' recorded order
      exact ⟨file', ran, describes, (ih (fit' describes) (onceRest _ ran)).mpr (rest _ ran)⟩

/-- From an empty file on every run is described by what it wrote exactly if none of them sees a test in two ways or
a failure before what the test is annotated with for later. -/
theorem expectations_describe_iff (semver : Semver V P) (tables : CaseTables) (runs : List (TestRun V))
    (once : EachRun semver tables (OneUnexpected semver tables) [] runs) :
    EachDescribed semver tables [] runs ↔ EachRun semver tables (InOrder semver tables) [] runs := by
  have fit : Fit semver tables [] [] := by
    refine ⟨rfl, fun _ mem => absurd mem List.not_mem_nil, fun key u => ?_⟩
    exact Nat.zero_le 1
  exact eachDescribed_iff fit runs once

end

/-! ## Three releases -/

/-- The versions 1.0.0, 2.0.0 and 3.0.0. -/
def threeReleases : Semver (Fin 3) (Fin 3) where
  precedence := id
  onto := Function.surjective_id
  parse s := if s = "1.0.0" then some 0 else if s = "2.0.0" then some 1 else if s = "3.0.0" then some 2 else none
  print v := if v = 0 then "1.0.0" else if v = 1 then "2.0.0" else "3.0.0"
  parse_print := by decide
  plain := by simp [Fin.forall_fin_succ]

/-- A test that fails at a version, and nothing else. -/
def failsAt (v : Fin 3) : TestRun (Fin 3) := ⟨v, [⟨"test_fill", none, .fail⟩]⟩

/-- A test that succeeds at a version, and nothing else. -/
def succeedsAt (v : Fin 3) : TestRun (Fin 3) := ⟨v, [⟨"test_fill", none, .success⟩]⟩

lemma runTests_failsAt (v : Fin 3) : runTests threeReleases Lowercase.asciiTables [] (failsAt v) =
    some [("test_fill", [⟨"fail", some (">=" ++ threeReleases.print v)⟩])] := by
  revert v
  decide

lemma runTests_failsAt_before :
    runTests threeReleases Lowercase.asciiTables [("test_fill", [⟨"fail", some ">=2.0.0"⟩])] (failsAt 0) =
      some [("test_fill", [⟨"fail", some ">=2.0.0"⟩, ⟨"fail", some ">=1.0.0"⟩])] := by
  decide

/-- One event is one unexpected result at most. -/
lemma oneUnexpected_of_single {V P : Type} [LinearOrder P] {semver : Semver V P} {tables : CaseTables}
    {file : AnnotationsFile} {v : V} (ev : TestEvent) : OneUnexpected semver tables file ⟨v, [ev]⟩ := by
  intro annotations _
  rw [judge, List.foldl_cons, List.foldl_nil, addResult]
  split
  case isTrue => exact List.nodup_nil
  case isFalse =>
    split
    case isTrue => exact List.nodup_nil
    case isFalse => cases ev.observed <;> exact List.pairwise_singleton _ _

/-- A failure from one release on, and a success from the next one on. -/
theorem failure_then_success_described :
    EachDescribed threeReleases Lowercase.asciiTables [] [failsAt 0, succeedsAt 1] := by
  refine (expectations_describe_iff threeReleases Lowercase.asciiTables [failsAt 0, succeedsAt 1]
    ⟨oneUnexpected_of_single _, fun _ _ => ⟨oneUnexpected_of_single _, fun _ _ => trivial⟩⟩).mpr
    ⟨⟨?_, ?_⟩, fun _ _ => ⟨⟨?_, ?_⟩, fun _ _ => trivial⟩⟩
  · intro ev mem ev' mem' _ _ _
    rw [List.mem_singleton.mp mem, List.mem_singleton.mp mem']
  · intro ev _ _ _ _ annotations read a mem
    cases Option.some.inj read
    cases mem
  · intro ev mem ev' mem' _ _ _
    rw [List.mem_singleton.mp mem, List.mem_singleton.mp mem']
  · intro ev mem _ failure
    rw [List.mem_singleton.mp mem] at failure
    exact absurd rfl failure

/-- A release that is tested later has two annotations for one that was tested before it. -/
theorem failure_before_another_twice :
    EachRun threeReleases Lowercase.asciiTables (OneUnexpected threeReleases Lowercase.asciiTables) []
        [failsAt 1, failsAt 0] ∧
      ¬EachDescribed threeReleases Lowercase.asciiTables [] [failsAt 1, failsAt 0] := by
  refine ⟨⟨oneUnexpected_of_single _, fun _ _ => ⟨oneUnexpected_of_single _, fun _ _ => trivial⟩⟩, ?_⟩
  rintro ⟨file, ran, _, file', ran', described, _⟩
  cases Option.some.inj (ran.symm.trans (runTests_failsAt 1))
  cases Option.some.inj (ran'.symm.trans runTests_failsAt_before)
  have once := described.once 1 [("test_fill",
    [⟨some 1, none, ⟨"fail", some ">=2.0.0"⟩⟩, ⟨some 0, none, ⟨"fail", some ">=1.0.0"⟩⟩])] (by rfl) "test_fill"
  exact absurd once (by decide)

end ArchipelagoXL.ApWorker
