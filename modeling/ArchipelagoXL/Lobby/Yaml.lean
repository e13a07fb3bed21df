import ArchipelagoXL.Wq.Types
import Mathlib.Data.List.Infix
import Mathlib.Data.List.Perm.Basic
import Mathlib.Logic.Function.Basic

/-!
# YAMLs and their validation

Model of `lobby/src/db/yaml.rs` and of the validation callback of `lobby/src/jobs.rs`: the row of a YAML
with its content and its validation columns, the documents that `parse_raw_yamls` finds in a text, the
validation jobs and what the callback writes back when a result comes in.

Times are nanoseconds from the epoch of the database. The database keeps `last_validation_time` in
microseconds, so what the callback compares a submission time with is the time of the last
validation rounded down. Results of one YAML may come in any order: the one of the job submitted last stands
(`latest_result_stands`).
-/

namespace ArchipelagoXL.Lobby

/-! ## Texts -/

/-- The characters that `trim` drops (Rust `char::is_whitespace`). -/
def isWhitespace (c : Char) : Bool :=
  let n := c.toNat
  (9 ≤ n && n ≤ 13) || n == 0x20 || n == 0x85 || n == 0xa0 || n == 0x1680 ||
    (0x2000 ≤ n && n ≤ 0x200a) || n == 0x2028 || n == 0x2029 || n == 0x202f || n == 0x205f ||
    n == 0x3000

/-- Rust `trim`. -/
def trim (l : List Char) : List Char :=
  ((l.dropWhile isWhitespace).reverse.dropWhile isWhitespace).reverse

/-- Drops `p` from the front at most `n` times. -/
def dropFront (p : List Char) : ℕ → List Char → List Char
  | 0, l => l
  | n + 1, l => if p.isPrefixOf l then dropFront p n (l.drop p.length) else l

/-- Rust `trim_start_matches`, for a pattern that is not empty. -/
def trimStartMatches (p l : List Char) : List Char := dropFront p l.length l

/-- Rust `trim_end_matches`. -/
def trimEndMatches (p l : List Char) : List Char :=
  (trimStartMatches p.reverse l.reverse).reverse

/-- Rust `str::contains`. -/
def contains (s sub : String) : Bool := decide (sub.toList <:+: s.toList)

/-- Rust `YamlGame`; the map of weights as its entries. -/
inductive YamlGame where
  | name (n : String)
  | map (m : List (String × Float))

/-- The derived comparison; maps are compared as sets of entries. -/
instance : BEq YamlGame where
  beq
    | .name a, .name b => a == b
    | .map a, .map b =>
      a.length == b.length && a.all fun e => b.any fun f => e.1 == f.1 && e.2 == f.2
    | _, _ => false

/-- Rust `validate_game`. -/
def validateGame : YamlGame → Except String String
  | .name n => .ok n
  | .map m =>
    match m.filter fun e => decide (1.0 ≤ e.2) with
    | [] => .error "Your YAML contains games but none of them has any chance of getting rolled"
    | [e] => .ok e.1
    | l => .ok ("Random (" ++ toString l.length ++ ")")

/-- Rust `YamlFile`. -/
structure YamlFile where
  game : YamlGame
  name : String

/-- The YAML libraries: `DocumentIterator` cuts a text into documents, `read_yaml` reads one. -/
structure YamlLib where
  documents : String → List (Except Unit String)
  readYaml : String → Except String YamlFile

/-- What `parse_raw_yamls` says about a document that cannot be read. -/
def readError (e : String) : String :=
  if (contains e "duplicate entry" || contains e "duplicate mapping key") &&
      (contains e "name" || contains e "game") then
    "Your YAML contains duplicate keys. This usually means you forgot to add '---' to separate " ++
      "multiple YAML documents."
  else if contains e "missing field" then
    "This does not look like an archipelago YAML. Check that it has both a `name` and a `game` " ++
      "field."
  else "Your YAML syntax is invalid: " ++ e

/-- The start and end of an uploaded text, dropped before it is cut into documents. -/
def stripRaw (s : String) : String :=
  String.ofList (trimEndMatches "---".toList (trimStartMatches "---".toList
    (trimStartMatches ['\ufeff'] (trim s.toList))))

/-- The start and end of a document, dropped once it is read. -/
def stripDocument (s : String) : String :=
  String.ofList (trim (trimStartMatches "---".toList (trim s.toList)))

/-- Rust `parse_raw_yamls`. -/
def parseRawYamls (lib : YamlLib) (yamls : List String) : Except String (List (String × YamlFile)) :=
  (lib.documents ("\n---\n".intercalate (yamls.map stripRaw))).mapM fun doc =>
    match doc with
    | .error _ => .error "Invalid yaml file. Syntax error."
    | .ok doc =>
      match lib.readYaml doc with
      | .error e => .error (readError e)
      | .ok parsed => .ok (stripDocument doc, parsed)

/-- The one document of a text. -/
def documentOf (lib : YamlLib) (s : String) : Option String :=
  match parseRawYamls lib [s] with
  | .ok [(doc, _)] => some doc
  | _ => none

/-- Two texts are the same YAML, up to what `parse_raw_yamls` strips: they are equal, one is the
document of the other, or they have the same document. -/
def SameYaml (lib : YamlLib) (a b : String) : Prop :=
  ∃ doc, (doc = a ∨ documentOf lib a = some doc) ∧ (doc = b ∨ documentOf lib b = some doc)

lemma SameYaml.refl (lib : YamlLib) (a : String) : SameYaml lib a a :=
  ⟨a, .inl rfl, .inl rfl⟩

lemma SameYaml.of_documentOf {lib : YamlLib} {a doc : String} (h : documentOf lib a = some doc) :
    SameYaml lib doc a :=
  ⟨doc, .inl rfl, .inr h⟩

/-! ## Rows and jobs -/

/-- Rust `YamlValidationStatus`. -/
inductive YamlValidationStatus where
  | validated
  | manuallyValidated
  | unsupported
  | failed
  | unknown
deriving DecidableEq

/-- The row of a YAML (Rust `Yaml`), with versions in `V`. -/
structure Yaml (V : Type) where
  content : String
  editedContent : Option String
  game : String
  playerName : String
  validationStatus : YamlValidationStatus
  apworlds : List (String × V)
  /-- In microseconds. -/
  lastValidationTime : ℕ
  lastError : Option String
  /-- `last_edited_by`, `last_edited_by_name` and `last_edited_at`. -/
  lastEdited : Option (ℤ × String × ℕ)
deriving DecidableEq

/-- Rust `YamlValidationParams`; `I` names YAMLs. -/
structure YamlValidationParams (I V : Type) where
  apworlds : List (String × V)
  yaml : String
  yamlId : Option I
  apVersion : Option V
deriving DecidableEq

/-- A job of the validation queue (Rust `JobDesc`). -/
structure ValidationJob (I V : Type) where
  params : YamlValidationParams I V
  submittedAt : ℕ
deriving DecidableEq

/-- What a worker reported (Rust `JobResult`): `resolve_job` turns down a status that does not resolve the
job. The result itself is the optional error of `YamlValidationResponse`. -/
structure ValidationResult where
  status : Wq.JobStatus
  result : Option (Option String)
  resolved : status.isResolved = true
deriving DecidableEq

section

variable {I V : Type}

/-- Rust `current_content`. -/
def Yaml.currentContent (y : Yaml V) : String := y.editedContent.getD y.content

/-- A time as the database stores it. -/
def toTimestamp (t : ℕ) : ℕ := t / 1000

/-- The stored time, as the code compares it (Rust `and_utc`). -/
def andUtc (t : ℕ) : ℕ := t * 1000

/-- Rust `update_yaml_status`. -/
def Yaml.updateStatus (y : Yaml V) (status : YamlValidationStatus) (error : Option String)
    (apworlds : List (String × V)) (time : ℕ) : Yaml V :=
  { y with
    validationStatus := status
    apworlds := apworlds
    lastError := error
    lastValidationTime := toTimestamp time }

/-- Rust `reset_yaml_validation_status`. -/
def Yaml.resetStatus (y : Yaml V) : Yaml V := { y with validationStatus := .unknown }

/-- Rust `update_yaml_edited_content`. -/
def Yaml.updateEditedContent (y : Yaml V) (content game playerName : String)
    (status : YamlValidationStatus) (apworlds : List (String × V)) (error : Option String)
    (edited : ℤ × String × ℕ) : Yaml V :=
  { y with
    editedContent := some content
    game := game
    playerName := playerName
    validationStatus := status
    apworlds := apworlds
    lastError := error
    lastEdited := some edited }

@[simp] lemma Yaml.currentContent_updateStatus (y : Yaml V) (status : YamlValidationStatus)
    (error : Option String) (apworlds : List (String × V)) (time : ℕ) :
    (y.updateStatus status error apworlds time).currentContent = y.currentContent := rfl

@[simp] lemma Yaml.currentContent_updateEditedContent (y : Yaml V) (content game playerName : String)
    (status : YamlValidationStatus) (apworlds : List (String × V)) (error : Option String)
    (edited : ℤ × String × ℕ) :
    (y.updateEditedContent content game playerName status apworlds error edited).currentContent =
      content := rfl

/-! ## The callback -/

/-- The first check of the callback: a validation that is older than the last one. -/
def Yaml.olderJob (y : Yaml V) (job : ValidationJob I V) : Bool :=
  decide (job.submittedAt < andUtc y.lastValidationTime)

/-- The second check: a job that names another version than the one the room is on. -/
def ValidationJob.otherVersion [DecidableEq V] (job : ValidationJob I V) (room : V) : Bool :=
  match job.params.apVersion with
  | none => false
  | some v => decide (room ≠ v)

/-- The status and error that a result stands for. -/
def ValidationResult.outcome (r : ValidationResult) : YamlValidationStatus × Option String :=
  match r.status with
  | .success => (.validated, none)
  | .failure => (.failed, r.result.bind fun e => e)
  -- the other statuses do not resolve a job
  | _ => (.failed, some "Internal error")

/-- The write of the callback. -/
def Yaml.record (y : Yaml V) (job : ValidationJob I V) (r : ValidationResult) : Yaml V :=
  y.updateStatus r.outcome.1 r.outcome.2 job.params.apworlds job.submittedAt

/-- The tables that the callback reads and writes. -/
structure Db (I V : Type) where
  yamls : I → Option (Yaml V)
  /-- The version of the room that a YAML is in. -/
  apVersion : I → V

/-- An update of the row of a YAML, if there is one. -/
def Db.update [DecidableEq I] (db : Db I V) (id : I) (f : Yaml V → Yaml V) : Db I V :=
  { db with yamls := Function.update db.yamls id ((db.yamls id).map f) }

variable [DecidableEq I] [DecidableEq V]

/-- The callback as one step (Rust `get_yaml_validation_callback`), with whether it took the result. -/
def validationCallback (db : Db I V) (job : ValidationJob I V) (r : ValidationResult) :
    Db I V × Bool :=
  match job.params.yamlId with
  | none => (db, false)
  | some id =>
    match db.yamls id with
    | none => (db, true)
    | some y =>
      if y.olderJob job then (db, true)
      else if job.otherVersion (db.apVersion id) then (db, true)
      else (db.update id (·.record job r), true)

/-- Results in the order they come in. -/
def deliver (db : Db I V) (results : List (ValidationJob I V × ValidationResult)) : Db I V :=
  results.foldl (fun db d => (validationCallback db d.1 d.2).1) db

/-! ## Late results -/

/-- What a result makes of the row it is for. -/
def Yaml.receive (room : V) (y : Yaml V) (d : ValidationJob I V × ValidationResult) : Yaml V :=
  if y.olderJob d.1 then y else if d.1.otherVersion room then y else y.record d.1 d.2

omit [DecidableEq I] in
lemma Yaml.receive_of_olderJob {room : V} {y : Yaml V} {d : ValidationJob I V × ValidationResult}
    (older : y.olderJob d.1 = true) : y.receive room d = y := by
  simp [Yaml.receive, older]

omit [DecidableEq I] in
lemma Yaml.receive_of_otherVersion {room : V} {y : Yaml V} {d : ValidationJob I V × ValidationResult}
    (other : d.1.otherVersion room = true) : y.receive room d = y := by
  simp [Yaml.receive, other]

omit [DecidableEq I] in
lemma Yaml.receive_of_accepted {room : V} {y : Yaml V} {d : ValidationJob I V × ValidationResult}
    (older : y.olderJob d.1 = false) (other : d.1.otherVersion room = false) :
    y.receive room d = y.record d.1 d.2 := by
  simp [Yaml.receive, older, other]

/-- The callback writes the row that the result makes of the one it finds. -/
lemma validationCallback_row {db : Db I V} {id : I} {y : Yaml V} (row : db.yamls id = some y)
    {d : ValidationJob I V × ValidationResult} (mine : d.1.params.yamlId = some id) :
    (validationCallback db d.1 d.2).1 =
      { db with yamls := Function.update db.yamls id (some (y.receive (db.apVersion id) d)) } := by
  have same : Function.update db.yamls id (some y) = db.yamls := by
    rw [← row]
    exact Function.update_eq_self id db.yamls
  simp only [validationCallback, mine, row, Yaml.receive]
  split
  · rw [same]
  · split
    · rw [same]
    · simp only [Db.update, row, Option.map_some]

/-- Results of one YAML change its row and nothing else. -/
lemma deliver_row {db : Db I V} {id : I} {y : Yaml V} (row : db.yamls id = some y)
    {ds : List (ValidationJob I V × ValidationResult)}
    (mine : ∀ d ∈ ds, d.1.params.yamlId = some id) :
    deliver db ds = { db with
      yamls := Function.update db.yamls id (some (ds.foldl (Yaml.receive (db.apVersion id)) y)) } := by
  induction ds generalizing db y with
  | nil =>
    show db = _
    rw [List.foldl_nil, ← row, Function.update_eq_self]
  | cons d ds ih =>
    have first := validationCallback_row row (mine d List.mem_cons_self)
    show deliver (validationCallback db d.1 d.2).1 ds = _
    rw [first, ih (Function.update_self ..) fun e he => mine e (List.mem_cons_of_mem _ he)]
    simp only [Function.update_idem, List.foldl_cons]

omit [DecidableEq I] [DecidableEq V] in
@[simp] lemma Yaml.record_record (y : Yaml V) (d e : ValidationJob I V × ValidationResult) :
    (y.record d.1 d.2).record e.1 e.2 = y.record e.1 e.2 := rfl

omit [DecidableEq I] [DecidableEq V] in
lemma Yaml.olderJob_iff {y : Yaml V} {job : ValidationJob I V} :
    y.olderJob job = true ↔ job.submittedAt < y.lastValidationTime * 1000 := by
  rw [Yaml.olderJob, decide_eq_true_iff, andUtc]

omit [DecidableEq I] [DecidableEq V] in
lemma Yaml.not_olderJob_iff {y : Yaml V} {job : ValidationJob I V} :
    y.olderJob job = false ↔ y.lastValidationTime * 1000 ≤ job.submittedAt := by
  rw [Yaml.olderJob, decide_eq_false_iff_not, andUtc, Nat.not_lt]

omit [DecidableEq I] [DecidableEq V] in
@[simp] lemma Yaml.lastValidationTime_record (y : Yaml V) (job : ValidationJob I V)
    (r : ValidationResult) : (y.record job r).lastValidationTime = job.submittedAt / 1000 := rfl

/-- The result counts in the room, and no other that counts was submitted later. -/
def Latest (room : V) (ds : List (ValidationJob I V × ValidationResult))
    (d : ValidationJob I V × ValidationResult) : Prop :=
  d.1.otherVersion room = false ∧
    ∀ e ∈ ds, e.1.otherVersion room = false → e.1.submittedAt ≤ d.1.submittedAt

omit [DecidableEq I] in
/-- What a list of results makes of a row: nothing, if all that count are older than it, else what the
latest one says. -/
lemma Yaml.foldl_receive (room : V) {ds : List (ValidationJob I V × ValidationResult)} (y : Yaml V)
    (distinct : ds.Pairwise fun d e => toTimestamp d.1.submittedAt ≠ toTimestamp e.1.submittedAt) :
    ((∀ d ∈ ds, d.1.otherVersion room = false → y.olderJob d.1 = true) ∧
        ds.foldl (Yaml.receive room) y = y) ∨
      ∃ d ∈ ds, Latest room ds d ∧ y.olderJob d.1 = false ∧
        ds.foldl (Yaml.receive room) y = y.record d.1 d.2 := by
  induction ds generalizing y with
  | nil => exact .inl ⟨by simp, rfl⟩
  | cons d ds ih =>
    obtain ⟨apart, distinct⟩ := List.pairwise_cons.1 distinct
    rw [List.foldl_cons]
    by_cases accepted : y.olderJob d.1 = false ∧ d.1.otherVersion room = false
    · obtain ⟨older, other⟩ := accepted
      rw [Yaml.receive_of_accepted older other]
      have hy := Yaml.not_olderJob_iff.1 older
      -- the row now carries the time of `d`, rounded down
      rcases ih (y.record d.1 d.2) distinct with ⟨all, eq⟩ | ⟨e, he, ⟨counts, max⟩, new, eq⟩
      · refine .inr ⟨d, List.mem_cons_self, ⟨other, ?_⟩, older, eq⟩
        intro e he counts
        rcases List.mem_cons.1 he with rfl | he
        · exact Nat.le_refl _
        · have lt := Yaml.olderJob_iff.1 (all e he counts)
          rw [Yaml.lastValidationTime_record] at lt
          omega
      · have ne := apart e he
        have le := Yaml.not_olderJob_iff.1 new
        rw [Yaml.lastValidationTime_record] at le
        have lt : d.1.submittedAt < e.1.submittedAt := by
          simp only [toTimestamp] at ne
          omega
        refine .inr ⟨e, List.mem_cons_of_mem _ he, ⟨counts, ?_⟩, ?_, eq⟩
        · intro f hf countsF
          rcases List.mem_cons.1 hf with rfl | hf
          · exact Nat.le_of_lt lt
          · exact max f hf countsF
        · exact Yaml.not_olderJob_iff.2 (Nat.le_trans hy (Nat.le_of_lt lt))
    · have skip : y.receive room d = y := by
        by_cases older : y.olderJob d.1 = true
        · exact Yaml.receive_of_olderJob older
        · exact Yaml.receive_of_otherVersion (by simpa [older] using accepted)
      have old : d.1.otherVersion room = false → y.olderJob d.1 = true := by
        intro counts
        simpa [counts] using accepted
      rw [skip]
      rcases ih y distinct with ⟨all, eq⟩ | ⟨e, he, ⟨counts, max⟩, new, eq⟩
      · refine .inl ⟨?_, eq⟩
        intro e he counts
        rcases List.mem_cons.1 he with rfl | he
        · exact old counts
        · exact all e he counts
      · refine .inr ⟨e, List.mem_cons_of_mem _ he, ⟨counts, ?_⟩, new, eq⟩
        intro f hf countsF
        rcases List.mem_cons.1 hf with rfl | hf
        · have lt := Yaml.olderJob_iff.1 (old countsF)
          have le := Yaml.not_olderJob_iff.1 new
          omega
        · exact max f hf countsF

/-- Of results that come in in any order, the one of the job submitted last stands: of the jobs that do not
name another version than the room's, submitted in different microseconds, unless the YAML was
validated after it. A result for another version changes nothing. -/
theorem latest_result_stands {db : Db I V} {id : I} {y : Yaml V} (row : db.yamls id = some y)
    {ds : List (ValidationJob I V × ValidationResult)}
    (mine : ∀ d ∈ ds, d.1.params.yamlId = some id)
    (distinct : ds.Pairwise fun d e => toTimestamp d.1.submittedAt ≠ toTimestamp e.1.submittedAt)
    {order : List (ValidationJob I V × ValidationResult)} (perm : order.Perm ds) :
    (∀ d ∈ ds, Latest (db.apVersion id) ds d → y.olderJob d.1 = false →
        deliver db order = db.update id (·.record d.1 d.2)) ∧
      ((∀ d ∈ ds, d.1.otherVersion (db.apVersion id) = false → y.olderJob d.1 = true) →
        deliver db order = db) ∧
      ∀ (db' : Db I V) (job : ValidationJob I V) (r : ValidationResult),
        job.params.yamlId = some id → job.otherVersion (db'.apVersion id) = true →
          (validationCallback db' job r).1 = db' := by
  have fold := Yaml.foldl_receive (db.apVersion id) y ((perm.pairwise_iff Ne.symm).2 distinct)
  have eq := deliver_row row fun d hd => mine d (perm.mem_iff.1 hd)
  refine ⟨?_, ?_, ?_⟩
  · intro d hd latest new
    rcases fold with ⟨all, -⟩ | ⟨e, he, ⟨counts, max⟩, -, last⟩
    · rw [all d (perm.mem_iff.2 hd) latest.1] at new
      cases new
    · have le := max d (perm.mem_iff.2 hd) latest.1
      have ge := latest.2 e (perm.mem_iff.1 he) counts
      have same : d = e := by
        by_contra ne
        have apart : Std.Symm fun d e : ValidationJob I V × ValidationResult =>
          toTimestamp d.1.submittedAt ≠ toTimestamp e.1.submittedAt := ⟨fun _ _ => Ne.symm⟩
        exact distinct.forall hd (perm.mem_iff.1 he) ne
          (congrArg toTimestamp (Nat.le_antisymm le ge))
      rw [eq, last, ← same, Db.update, row, Option.map_some]
  · intro old
    rcases fold with ⟨-, last⟩ | ⟨e, he, latest, new, -⟩
    · rw [eq, last, ← row, Function.update_eq_self]
    · rw [old e (perm.mem_iff.1 he) latest.1] at new
      cases new
  · intro db' job r target other
    simp only [validationCallback, target]
    split
    · rfl
    · simp [other]

/-- Whatever the order of the results, the columns are those of the job submitted last. -/
def LatestWins (db : Db I V) (id : I) (ds : List (ValidationJob I V × ValidationResult)) : Prop :=
  ∀ order : List (ValidationJob I V × ValidationResult), order.Perm ds →
    ∀ d ∈ ds, Latest (db.apVersion id) ds d →
      ((deliver db order).yamls id).map
          (fun y => (y.validationStatus, y.lastError, y.apworlds, y.lastValidationTime)) =
        some (d.2.outcome.1, d.2.outcome.2, d.1.params.apworlds, toTimestamp d.1.submittedAt)

end

/-- A row with the given status and time. -/
def sampleRow (status : YamlValidationStatus) (time : ℕ) : Yaml ℕ :=
  ⟨"name: A", none, "G", "A", status, [], time, none, none⟩

/-- A room on version 1, with YAML 0. -/
def sampleDb (status : YamlValidationStatus) (time : ℕ) : Db ℕ ℕ :=
  ⟨fun id => if id = 0 then some (sampleRow status time) else none, fun _ => 1⟩

/-- A job for YAML 0 on version `v`. -/
def sampleJob (v time : ℕ) : ValidationJob ℕ ℕ := ⟨⟨[("w", 2)], "name: A", some 0, some v⟩, time⟩

def succeeded : ValidationResult := ⟨.success, none, rfl⟩

def refused : ValidationResult := ⟨.failure, some (some "no"), rfl⟩

/-- Three jobs, one of them for another version. -/
def sampleResults : List (ValidationJob ℕ ℕ × ValidationResult) :=
  [(sampleJob 1 7000, succeeded), (sampleJob 1 5000, refused), (sampleJob 2 9000, refused)]

/-- The results above, the latest one first: the older one and the one for another version do not
change what it says. -/
theorem latest_result_stands_first :
    deliver (sampleDb .unknown 3) sampleResults =
      (sampleDb .unknown 3).update 0 (·.record (sampleJob 1 7000) succeeded) :=
  (latest_result_stands (show (sampleDb .unknown 3).yamls 0 = some (sampleRow .unknown 3) from rfl)
    (by decide) (by decide) (List.Perm.refl sampleResults)).1 (sampleJob 1 7000, succeeded)
    (by decide) ⟨by decide, by decide⟩ (by decide)

/-- Two ways to another end than that of the latest job: the YAML was found unsupported after the job was
submitted, and that stands; or two jobs were submitted in one microsecond, where the database cannot
tell which is older, and the older result that comes in late is the one that stands. -/
theorem latest_result_loses :
    ¬ LatestWins (sampleDb .unsupported 9) 0 [(sampleJob 1 7000, succeeded)] ∧
      ¬ LatestWins (sampleDb .unknown 3) 0
        [(sampleJob 1 7100, refused), (sampleJob 1 7200, succeeded)] := by
  constructor
  · intro wins
    have := wins _ (List.Perm.refl _) (sampleJob 1 7000, succeeded) (by decide)
      ⟨by decide, by decide⟩
    revert this
    decide
  · intro wins
    have := wins [(sampleJob 1 7200, succeeded), (sampleJob 1 7100, refused)] (List.Perm.swap _ _ _)
      (sampleJob 1 7200, succeeded) (by decide) ⟨by decide, by decide⟩
    revert this
    decide

end ArchipelagoXL.Lobby
