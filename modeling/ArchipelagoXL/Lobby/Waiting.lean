import ArchipelagoXL.Lobby.Versions

/-!
# YAMLs that wait for an answer

A YAML whose status is unknown blocks the generation of its room until a validation answers. The status is
reset by `switch_base`, for the whole room, and by `queue_yaml_validation`, and in both cases jobs are queued
after that: for the YAMLs that were read earlier, and for the version that was read earlier. A result that is
for another version, or that is older than the last validation, is dropped.

A YAML that waits is attended to: a job for it is still to be answered, or a request is about to queue it, or
the callback has a result for it at hand. This stays so in a run in which the YAMLs of a move are all those
of the room, and in which a status is reset for a job on the room's version (`unknown_awaits`).
-/

namespace ArchipelagoXL.Lobby

open Interleave

section

variable {lib : YamlLib} {I V : Type}

/-- The row as it was written last, in a transaction that is open or not. -/
def Versioned.latest (w : Versioned I V) (id : I) : Option (Yaml V) := (w.dirty id).or (w.yamls id)

/-- A job for the YAML and the version whose result has not been delivered yet. -/
def Versioned.Unanswered (w : Versioned I V) (version : V) (id : I) : Prop :=
  ∃ n job, w.jobs[n]? = some job ∧ job.params.yamlId = some id ∧ job.params.apVersion = some version ∧
    ∀ r, (n, r) ∉ w.reports

/-- Such a job that is not older than the last validation, so that its result will be taken. -/
def Versioned.Awaits (w : Versioned I V) (version : V) (id : I) (y : Yaml V) : Prop :=
  ∃ n job, w.jobs[n]? = some job ∧ job.params.yamlId = some id ∧ job.params.apVersion = some version ∧
    (∀ r, (n, r) ∉ w.reports) ∧ y.olderJob job = false

/-- The operations all succeed, and the clock goes on. -/
def Versioned.Succeeds (w : Versioned I V) (x : VersionGiven I V) : Prop :=
  x ≠ .fail ∧ ∀ t, x.time = some t → w.clock < t

/-- The steps that leave no YAML behind. A move of the room has read all its YAMLs, but for those with a job
for the new version. A status is reset for a job on the room's version, unless it is unknown already or there
is such a job. And `edit_room_submit` writes back the room's version, unless each YAML that waits has a job
for the other one. -/
def Versioned.LeavesNone (w : Versioned I V) : VersionTask lib I V → VersionGiven I V → Prop
  | .running (.switchCommit target yamls), .go =>
    ∀ id y, w.yamls id = some y → (∃ row ∈ yamls, row.1 = id) ∨ w.Awaits target id y
  | .running (.queue room (.reset id _ _) _ _), .go =>
    ∀ y, w.yamls id = some y →
      room.apVersion = w.room.apVersion ∨ y.validationStatus = .unknown ∨ w.Awaits w.room.apVersion id y
  | .running (.submitUpdate room _), .go =>
    room.apVersion = w.room.apVersion ∨
      ∀ id y, w.latest id = some y → y.validationStatus = .unknown → w.Awaits room.apVersion id y
  | _, _ => True

/-- The steps of a run that leaves no YAML behind. -/
def Versioned.Attentive (w : Versioned I V) (t : VersionTask lib I V) (x : VersionGiven I V) : Prop :=
  w.Succeeds x ∧ w.LeavesNone t x

/-! ## Times, jobs and rows -/

/-- Times are in the past, reports are on jobs, and a row that a transaction has written is locked, is there,
and was not validated earlier than before. -/
structure Versioned.Steady (w : Versioned I V) : Prop where
  rows : ∀ id y, w.yamls id = some y → andUtc y.lastValidationTime ≤ w.clock
  jobs : ∀ job ∈ w.jobs, job.submittedAt ≤ w.clock
  reports : ∀ n r, (n, r) ∈ w.reports → n < w.jobs.length
  locked : ∀ id y', w.dirty id = some y' → id ∈ w.locks
  dirty : ∀ id y', w.dirty id = some y' → andUtc y'.lastValidationTime ≤ w.clock ∧
    ∃ y, w.yamls id = some y ∧ y.lastValidationTime ≤ y'.lastValidationTime

lemma andUtc_toTimestamp_le (t : ℕ) : andUtc (toTimestamp t) ≤ t := Nat.div_mul_le_self t 1000

/-- A time that has passed is stored as one that is not later. -/
lemma le_toTimestamp {stored t : ℕ} (le : andUtc stored ≤ t) : stored ≤ toTimestamp t :=
  (Nat.le_div_iff_mul_le (by decide)).mpr le

/-- A row that no transaction has written can be updated. -/
lemma Versioned.Steady.not_dirty {w : Versioned I V} (steady : w.Steady) {id : I} (free : id ∉ w.locks) :
    w.dirty id = none := by
  rcases there : w.dirty id with _ | y'
  · rfl
  · exact absurd (steady.locked id y' there) free

lemma Versioned.Steady.enqueue {w : Versioned I V} (steady : w.Steady) (params : YamlValidationParams I V)
    {time : ℕ} (later : w.clock ≤ time) : (w.enqueue params time).Steady := by
  refine ⟨fun id y there => (steady.rows id y there).trans later, fun job mem => ?_, fun n r mem => ?_,
    steady.locked, fun id y' there => ?_⟩
  · rcases List.mem_append.mp mem with mem | mem
    · exact (steady.jobs job mem).trans later
    · rw [List.mem_singleton.mp mem]
      exact le_rfl
  · show n < (w.jobs ++ [_]).length
    rw [List.length_append]
    exact Nat.lt_add_right _ (steady.reports n r mem)
  · obtain ⟨le, before⟩ := steady.dirty id y' there
    exact ⟨le.trans later, before⟩

variable [DecidableEq I]

lemma Versioned.update_clock {w w' : Versioned I V} {written : Option (List I)} {id : I}
    {f : Yaml V → Yaml V} (upd : w.update written id f = some w') : w'.clock = w.clock := by
  obtain ⟨-, ⟨-, rfl⟩ | ⟨-, rfl⟩⟩ := Versioned.update_cases upd
  · rfl
  · rfl

/-- An update, in a transaction only to a later validation. -/
lemma Versioned.Steady.update {w w' : Versioned I V} {written : Option (List I)} {id : I}
    {f : Yaml V → Yaml V} {source : I → Option ℕ} {time : ℕ} (steady : w.Steady)
    (upd : w.update written id f = some w') (later : w.clock ≤ time)
    (row : ∀ y, w.yamls id = some y → andUtc (f y).lastValidationTime ≤ time)
    (mono : written ≠ none → ∀ y, w.yamls id = some y → y.lastValidationTime ≤ (f y).lastValidationTime) :
    Versioned.Steady { w' with source := source, clock := time } := by
  obtain ⟨free, ⟨rfl, rfl⟩ | ⟨⟨l, rfl⟩, rfl⟩⟩ := Versioned.update_cases upd
  · refine ⟨fun k y there => ?_, fun job mem => (steady.jobs job mem).trans later, steady.reports,
      steady.locked, fun k y' there => ?_⟩
    · rcases updated_row there with ⟨-, there⟩ | ⟨rfl, y, found, rfl⟩
      · exact (steady.rows k y there).trans later
      · exact row y found
    · obtain ⟨le, y, found, mono⟩ := steady.dirty k y' there
      have ne : k ≠ id := by
        rintro rfl
        exact free (steady.locked k y' there)
      exact ⟨le.trans later, y, (Function.update_of_ne ne _ _).trans found, mono⟩
  · refine ⟨fun k y there => (steady.rows k y there).trans later,
      fun job mem => (steady.jobs job mem).trans later, steady.reports, fun k y' there => ?_,
      fun k y' there => ?_⟩
    · rcases updated_row there with ⟨-, there⟩ | ⟨rfl, -⟩
      · exact List.mem_cons_of_mem _ (steady.locked k y' there)
      · exact List.mem_cons_self
    · rcases updated_row there with ⟨-, there⟩ | ⟨rfl, y, found, rfl⟩
      · obtain ⟨le, before⟩ := steady.dirty k y' there
        exact ⟨le.trans later, before⟩
      · exact ⟨row y found, y, found, mono (by simp) y found⟩

lemma Versioned.Steady.drop {w : Versioned I V} (steady : w.Steady) (written : List I) :
    ∀ id y', (if written.contains id then none else w.dirty id) = some y' →
      (id ∈ w.locks.filter fun id => !written.contains id) ∧ written.contains id = false ∧
        w.dirty id = some y' := by
  intro id y' there
  split at there
  case isTrue => cases there
  case isFalse other =>
    have other : written.contains id = false := by simpa using other
    exact ⟨List.mem_filter.mpr ⟨steady.locked id y' there, by rw [other]; rfl⟩, other, there⟩

/-- The rows of a transaction come in. -/
lemma Versioned.Steady.commit {w : Versioned I V} (steady : w.Steady) (written : List I) :
    (w.commit written).Steady := by
  refine ⟨fun id y there => ?_, steady.jobs, steady.reports, fun id y' there => (steady.drop written id y' there).1,
    fun id y' there => ?_⟩
  · have there : (if written.contains id then (w.dirty id).or (w.yamls id) else w.yamls id) = some y := there
    split at there
    · rcases dirty : w.dirty id with _ | y'
      · rw [dirty, Option.none_or] at there
        exact steady.rows id y there
      · rw [dirty, Option.some_or] at there
        obtain rfl := Option.some.inj there
        exact (steady.dirty id _ dirty).1
    · exact steady.rows id y there
  · obtain ⟨-, other, dirty⟩ := steady.drop written id y' there
    obtain ⟨le, y, found, mono⟩ := steady.dirty id y' dirty
    exact ⟨le, y, (if_neg (by rw [other]; exact Bool.false_ne_true)).trans found, mono⟩

/-- An insert leaves the rows that are there. -/
lemma Versioned.insert_yamls {w : Versioned I V} {ids : List I} (free : w.clashes ids = false)
    {l : List (CheckedYaml V)} {time : ℕ} {id : I} {y : Yaml V} (found : w.yamls id = some y) :
    (w.insert (ids.zip l) time).yamls id = some y := by
  show ((ids.zip l).lookup id).elim (w.yamls id) _ = some y
  rcases new : (ids.zip l).lookup id with _ | c
  · exact found
  · have mem : id ∈ ids := (List.of_mem_zip (mem_of_lookup new)).1
    rw [Versioned.clashes, Bool.or_eq_false_iff, List.any_eq_false] at free
    exact absurd (by rw [found]; rfl) (free.2 id mem)

lemma Versioned.Steady.insert {w : Versioned I V} (steady : w.Steady) {ids : List I}
    (free : w.clashes ids = false) {l : List (CheckedYaml V)} {time : ℕ} (later : w.clock ≤ time) :
    (w.insert (ids.zip l) time).Steady := by
  refine ⟨fun id y there => ?_, fun job mem => (steady.jobs job mem).trans later, steady.reports,
    steady.locked, fun id y' dirty => ?_⟩
  · have there : ((ids.zip l).lookup id).elim (w.yamls id) (fun c => some (c.toYaml time)) = some y := there
    rcases new : (ids.zip l).lookup id with _ | c
    · rw [new, Option.elim_none] at there
      exact (steady.rows id y there).trans later
    · rw [new, Option.elim_some] at there
      obtain rfl := Option.some.inj there
      exact andUtc_toTimestamp_le time
  · obtain ⟨le, y, found, mono⟩ := steady.dirty id y' dirty
    exact ⟨le.trans later, y, Versioned.insert_yamls free found, mono⟩

/-- A step keeps times, jobs and rows in order. -/
lemma VersionOp.Does.steady {w w' : Versioned I V} {op : VersionOp lib I V} {x : VersionGiven I V}
    {t : VersionTask lib I V} (steady : w.Steady) (knows : op.Knows w) (succeeds : w.Succeeds x)
    (does : op.Does w x w' t) : w'.Steady := by
  cases does with
  | fails => exact absurd rfl succeeds.1
  | rollback written _ => exact absurd rfl succeeds.1
  | asks params time _ _ _ => exact steady.enqueue params (succeeds.2 time rfl).le
  | commit target yamls _ =>
    refine ⟨fun id y there => ?_, steady.jobs, steady.reports, steady.locked, fun id y' dirty => ?_⟩
    · obtain ⟨y, found, rfl⟩ := Option.map_eq_some_iff.mp there
      exact steady.rows id y found
    · obtain ⟨le, y, found, mono⟩ := steady.dirty id y' dirty
      exact ⟨le, y.resetStatus, Option.map_eq_some_iff.mpr ⟨y, found, rfl⟩, mono⟩
  | submit room form => exact ⟨steady.rows, steady.jobs, steady.reports, steady.locked, steady.dirty⟩
  | finish written => exact steady.commit written
  | settle room id status error rest written time upd =>
    have past := succeeds.2 time rfl
    refine steady.update upd past.le (fun y _ => andUtc_toTimestamp_le time) fun _ y found => ?_
    exact le_toTimestamp ((steady.rows id y found).trans past.le)
  | reset room id content apworlds rest written upd =>
    have same := Versioned.update_clock upd
    exact steady.update upd same.ge (fun y found => same ▸ steady.rows id y found) fun _ _ _ => le_rfl
  | enqueue room id content apworlds rest written time => exact steady.enqueue _ (succeeds.2 time rfl).le
  | insert u time ids _ free => exact steady.insert free (succeeds.2 time rfl).le
  | edit e status apworlds error source time upd =>
    have past := succeeds.2 time rfl
    exact steady.update upd past.le (fun y found => (steady.rows _ y found).trans past.le) fun ne => absurd rfl ne
  | record n job r id upd =>
    have same := Versioned.update_clock upd
    refine steady.update upd same.ge (fun y _ => ?_) fun ne => absurd rfl ne
    rw [same]
    exact (andUtc_toTimestamp_le _).trans (steady.jobs job (List.mem_of_getElem? knows.1))
  | _ => exact steady

end

/-! ## Who attends to a YAML -/

section

variable {lib : YamlLib} {I V : Type}

/-- The queue is at the YAML, and will not skip it. -/
def QueueStep.Covers (id : I) : QueueStep I V → Prop
  | .lookUp k y => k = id ∧ y.validationStatus ≠ .unsupported
  | .settle k _ _ | .reset k _ _ | .enqueue k _ _ => k = id

/-- The YAML is still to be queued, and will not be skipped. -/
def ToQueue (id : I) (rest : List (I × Yaml V)) : Prop :=
  ∃ row ∈ rest, row.1 = id ∧ row.2.validationStatus ≠ .unsupported

/-- The thread is about to queue the YAML for the version or to settle it, or has a result for it. -/
def VersionTask.Covers (version : V) (id : I) (y : Yaml V) : VersionTask lib I V → Prop
  | .running (.switchReread yamls) => ∃ row ∈ yamls, row.1 = id
  | .running (.queue room q rest _) => room.apVersion = version ∧ (q.Covers id ∨ ToQueue id rest)
  | .running (.callbackRead _ job _ k) =>
    k = id ∧ job.params.apVersion = some version ∧ y.olderJob job = false
  | .running (.callbackVersion _ job _ k) => k = id ∧ job.params.apVersion = some version
  | .running (.callbackWrite _ _ _ k) => k = id
  | _ => False

/-- A job for the YAML is still to be answered, or a thread sees to it. -/
def Covered (s : Conf (Versioned I V) (VersionTask lib I V)) (id : I) (y : Yaml V) : Prop :=
  s.shared.Awaits s.shared.room.apVersion id y ∨ ∃ k, (s.pc k).Covers s.shared.room.apVersion id y

/-- Every YAML that waits is attended to. -/
def Attended (s : Conf (Versioned I V) (VersionTask lib I V)) : Prop :=
  ∀ id y, s.shared.latest id = some y → y.validationStatus = .unknown → Covered s id y

/-- A step leaves a row as it is and hands the YAML on, if its thread saw to it. -/
structure HandsOn (w : Versioned I V) (q : VersionTask lib I V) (w' : Versioned I V) (t : VersionTask lib I V)
    (id : I) (y : Yaml V) : Prop where
  row : w.latest id = some y
  version : w'.room.apVersion = w.room.apVersion
  awaits : w.Awaits w.room.apVersion id y →
    w'.Awaits w.room.apVersion id y ∨ t.Covers w.room.apVersion id y
  own : q.Covers w.room.apVersion id y → w'.Awaits w.room.apVersion id y ∨ t.Covers w.room.apVersion id y

/-- What comes next in a queue covers what is still to be queued. -/
lemma nextYaml_covers {room : ValidatingRoom V} {version : V} (same : room.apVersion = version)
    {written : Option (List I)} {rest : List (I × Yaml V)} {id : I} (toQueue : ToQueue id rest) (y : Yaml V) :
    (nextYaml room written rest : VersionTask lib I V).Covers version id y := by
  obtain ⟨row, mem, own, status⟩ := toQueue
  cases rest with
  | nil => cases mem
  | cons first rest =>
    obtain ⟨k, y'⟩ := first
    rw [nextYaml]
    rcases List.mem_cons.mp mem with rfl | mem
    · split
      · exact ⟨same, .inl own⟩
      · exact ⟨same, .inl ⟨own, status⟩⟩
    · split
      · exact ⟨same, .inr ⟨row, mem, own, status⟩⟩
      · exact ⟨same, .inr ⟨row, mem, own, status⟩⟩

lemma VersionOp.Aside.not_covers {op : VersionOp lib I V} (aside : op.Aside) {version : V} {id : I} {y : Yaml V} :
    ¬ (VersionTask.running op).Covers version id y := by
  cases op with
  | switchReread _ => exact False.elim aside
  | queue _ _ _ _ => exact False.elim aside
  | submitEnd _ => exact False.elim aside
  | callbackRead _ _ _ _ => exact False.elim aside
  | callbackVersion _ _ _ _ => exact False.elim aside
  | callbackWrite _ _ _ _ => exact False.elim aside
  | _ => exact fun covers => covers

lemma Versioned.Grows.of_jobs {w w' : Versioned I V} (jobs : w'.jobs = w.jobs) (reports : w'.reports = w.reports) :
    w.Grows w' := by
  constructor
  · rw [jobs]
    exact fun _ _ h => h
  · rw [reports]
    exact fun _ h => h

/-- A job that is awaited stays so while jobs are added. -/
lemma Versioned.Awaits.mono {w w' : Versioned I V} {version : V} {id : I} {y : Yaml V}
    (awaits : w.Awaits version id y) (grows : w.Grows w') (reports : w'.reports = w.reports) :
    w'.Awaits version id y := by
  obtain ⟨n, job, found, named, same, unreported, newer⟩ := awaits
  refine ⟨n, job, grows.1 n job found, named, same, ?_, newer⟩
  rw [reports]
  exact unreported

/-- A step that leaves the row, the room and the reports. -/
lemma HandsOn.frame {w w' : Versioned I V} {q t : VersionTask lib I V} {id : I} {y : Yaml V}
    (row : w.latest id = some y) (version : w'.room.apVersion = w.room.apVersion) (grows : w.Grows w')
    (reports : w'.reports = w.reports)
    (own : q.Covers w.room.apVersion id y →
      w'.Awaits w.room.apVersion id y ∨ t.Covers w.room.apVersion id y) : HandsOn w q w' t id y :=
  ⟨row, version, fun awaits => .inl (awaits.mono grows reports), own⟩

/-- A YAML that was attended to and is handed on is attended to. -/
lemma Covered.handsOn {s : Conf (Versioned I V) (VersionTask lib I V)} {i : ℕ} {w' : Versioned I V}
    {t : VersionTask lib I V} {id : I} {y : Yaml V} (covered : Covered s id y)
    (hands : HandsOn s.shared (s.pc i) w' t id y) : Covered (s.move i w' t) id y := by
  have mine : w'.Awaits s.shared.room.apVersion id y ∨ t.Covers s.shared.room.apVersion id y →
      Covered (s.move i w' t) id y := by
    rw [← hands.version]
    rintro (awaits | covers)
    · exact .inl awaits
    · exact .inr ⟨i, by rwa [Conf.move_pc_self]⟩
  rcases covered with awaits | ⟨k, covers⟩
  · exact mine (hands.awaits awaits)
  · by_cases own : k = i
    · subst own
      exact mine (hands.own covers)
    · refine .inr ⟨k, ?_⟩
      rw [Conf.move_pc_of_ne own, Conf.move_shared, hands.version]
      exact covers

/-- A job that is new. -/
lemma Versioned.Steady.awaits_enqueue {w : Versioned I V} (steady : w.Steady) {version : V} {id : I} {y : Yaml V}
    {apworlds : List (String × V)} {content : String} {time : ℕ} (past : w.clock < time)
    (row : w.latest id = some y) :
    (w.enqueue ⟨apworlds, content, some id, some version⟩ time).Awaits version id y := by
  refine ⟨w.jobs.length, _, List.getElem?_concat_length, rfl, rfl, fun r reported => ?_, ?_⟩
  · exact absurd (steady.reports _ r reported) (Nat.lt_irrefl _)
  · have le : andUtc y.lastValidationTime ≤ w.clock := by
      rcases dirty : w.dirty id with _ | y'
      · rw [Versioned.latest, dirty, Option.none_or] at row
        exact steady.rows id y row
      · rw [Versioned.latest, dirty, Option.some_or] at row
        obtain rfl := Option.some.inj row
        exact (steady.dirty id _ dirty).1
    rw [Yaml.olderJob, decide_eq_false_iff_not]
    exact Nat.not_lt.mpr (le.trans past.le)

/-- The callback finds the row of a YAML that waits, and does not take the result for an older one. -/
lemma Versioned.Steady.newer {w : Versioned I V} (steady : w.Steady) {id : I} {y : Yaml V}
    (row : w.latest id = some y) {job : ValidationJob I V} (newer : y.olderJob job = false) :
    ∃ y', w.yamls id = some y' ∧ y'.olderJob job = false := by
  rcases dirty : w.dirty id with _ | y'
  · rw [Versioned.latest, dirty, Option.none_or] at row
    exact ⟨y, row, newer⟩
  · rw [Versioned.latest, dirty, Option.some_or] at row
    obtain rfl := Option.some.inj row
    obtain ⟨-, before, found, le⟩ := steady.dirty id _ dirty
    refine ⟨before, found, ?_⟩
    rw [Yaml.olderJob, decide_eq_false_iff_not, Nat.not_lt] at newer ⊢
    exact (Nat.mul_le_mul_right 1000 le).trans newer

lemma ValidationResult.outcome_known {r : ValidationResult} : r.outcome.1 ≠ .unknown := by
  unfold ValidationResult.outcome
  split
  all_goals exact YamlValidationStatus.noConfusion

/-- A status that is reset when it is unknown is as it was. -/
lemma Yaml.resetStatus_of_unknown {y : Yaml V} (unknown : y.validationStatus = .unknown) : y.resetStatus = y := by
  rw [Yaml.resetStatus, ← unknown]

variable [DecidableEq I]

/-- What an update leaves: the row in its place, and all else. -/
lemma Versioned.Steady.update_latest {w w' : Versioned I V} (steady : w.Steady) {written : Option (List I)}
    {id : I} {f : Yaml V → Yaml V} (upd : w.update written id f = some w') :
    w.latest id = w.yamls id ∧ w'.latest id = (w.yamls id).map f ∧ (∀ k, k ≠ id → w'.latest k = w.latest k) ∧
      w'.room = w.room ∧ w'.jobs = w.jobs ∧ w'.reports = w.reports := by
  obtain ⟨free, e⟩ := Versioned.update_cases upd
  have clean := steady.not_dirty free
  have before : w.latest id = w.yamls id := by rw [Versioned.latest, clean, Option.none_or]
  refine ⟨before, ?_⟩
  rcases e with ⟨-, rfl⟩ | ⟨-, rfl⟩
  · refine ⟨?_, fun k ne => ?_, rfl, rfl, rfl⟩
    · simp only [Versioned.latest, clean, Option.none_or, Function.update_self]
    · simp only [Versioned.latest, Function.update_of_ne ne]
  · refine ⟨?_, fun k ne => ?_, rfl, rfl, rfl⟩
    · simp only [Versioned.latest, Function.update_self]
      rcases row : w.yamls id with _ | y
      · rfl
      · rfl
    · simp only [Versioned.latest, Function.update_of_ne ne]

/-- The rows of a transaction come in as they were written last. -/
lemma Versioned.latest_commit (w : Versioned I V) (written : List I) (id : I) :
    (w.commit written).latest id = w.latest id := by
  show (if written.contains id then none else w.dirty id).or
    (if written.contains id then (w.dirty id).or (w.yamls id) else w.yamls id) = _
  split
  · rfl
  · rfl

/-- A row that waits was not written with a status that is known. -/
lemma Versioned.Steady.update_other {w w' : Versioned I V} (steady : w.Steady) {written : Option (List I)}
    {id k : I} {f : Yaml V → Yaml V} (upd : w.update written id f = some w')
    (known : ∀ y, (f y).validationStatus ≠ .unknown) {y : Yaml V} (row : w'.latest k = some y)
    (unknown : y.validationStatus = .unknown) : k ≠ id ∧ w.latest k = some y := by
  obtain ⟨-, own, other, -⟩ := steady.update_latest upd
  by_cases e : k = id
  · subst e
    rw [own] at row
    obtain ⟨y', -, rfl⟩ := Option.map_eq_some_iff.mp row
    exact absurd unknown (known y')
  · rw [other k e] at row
    exact ⟨e, row⟩

omit [DecidableEq I] in
/-- The thread, or a job, sees to the YAML from now on. -/
def Versioned.SeesTo (w : Versioned I V) (t : VersionTask lib I V) (id : I) (y : Yaml V) : Prop :=
  w.Awaits w.room.apVersion id y ∨ t.Covers w.room.apVersion id y

/-- A step of a queue leaves no YAML behind. -/
lemma VersionOp.Does.queue_attends {w w' : Versioned I V} {room : ValidatingRoom V} {q : QueueStep I V}
    {rest : List (I × Yaml V)} {written : Option (List I)} {x : VersionGiven I V} {t : VersionTask lib I V}
    (steady : w.Steady) (knows : (VersionOp.queue room q rest written : VersionOp lib I V).Knows w)
    (attentive : w.Attentive (.running (.queue room q rest written) : VersionTask lib I V) x)
    (does : (VersionOp.queue room q rest written).Does w x w' t) {id : I} {y : Yaml V}
    (row : w'.latest id = some y) (unknown : y.validationStatus = .unknown) :
    w'.SeesTo t id y ∨ HandsOn w (.running (.queue room q rest written)) w' t id y := by
  obtain ⟨succeeds, leaves⟩ := attentive
  cases does with
  | fails => exact absurd rfl succeeds.1
  | rollback _ _ => exact absurd rfl succeeds.1
  | reads aside _ => exact False.elim aside
  | asks _ _ aside _ _ => exact False.elim aside
  | found room k y' rest written apworlds =>
    refine .inr (.frame row rfl (.refl w) rfl ?_)
    rintro ⟨same, ⟨rfl, -⟩ | toQueue⟩
    · exact .inr ⟨same, .inl rfl⟩
    · exact .inr ⟨same, .inr toQueue⟩
  | skip room k y' rest written games unsupported =>
    refine .inr (.frame row rfl (.refl w) rfl ?_)
    rintro ⟨same, ⟨-, supported⟩ | toQueue⟩
    · exact absurd unsupported supported
    · exact .inr (nextYaml_covers same toQueue y)
  | missing room k y' rest written games =>
    refine .inr (.frame row rfl (.refl w) rfl ?_)
    rintro ⟨same, ⟨rfl, -⟩ | toQueue⟩
    · exact .inr ⟨same, .inl rfl⟩
    · exact .inr ⟨same, .inr toQueue⟩
  | settle room k status error rest written time upd =>
    obtain ⟨-, -, -, sameRoom, jobs, reports⟩ := steady.update_latest upd
    obtain ⟨ne, before⟩ := steady.update_other upd (fun _ => knows.2) row unknown
    refine .inr (.frame before (congrArg _ sameRoom) (Versioned.Grows.of_jobs jobs reports) reports ?_)
    rintro ⟨same, rfl | toQueue⟩
    · exact absurd rfl ne
    · exact .inr (nextYaml_covers same toQueue y)
  | reset room k content apworlds rest written upd =>
    obtain ⟨latest, own, other, sameRoom, jobs, reports⟩ := steady.update_latest upd
    have grows := Versioned.Grows.of_jobs jobs reports
    have hands : w.latest id = some y →
        HandsOn w (.running (.queue room (.reset k content apworlds) rest written) : VersionTask lib I V) w'
          (.running (.queue room (.enqueue k content apworlds) rest (written.map (k :: ·)))) id y :=
      fun before => .frame before (congrArg _ sameRoom) grows reports .inr
    by_cases e : id = k
    · subst e
      rw [own] at row
      obtain ⟨y', found, rfl⟩ := Option.map_eq_some_iff.mp row
      rcases leaves y' found with same | already | awaits
      · -- the job that comes next is for the room's version
        refine .inl (.inr ⟨?_, .inl rfl⟩)
        rw [sameRoom]
        exact same
      · refine .inr (hands ?_)
        rw [latest, found, Yaml.resetStatus_of_unknown already]
      · refine .inl (.inl ?_)
        rw [sameRoom]
        exact awaits.mono grows reports
    · rw [other id e] at row
      exact .inr (hands row)
  | enqueue room k content apworlds rest written time =>
    refine .inr (.frame row rfl (w.grows_enqueue _ _) rfl ?_)
    rintro ⟨same, rfl | toQueue⟩
    · left
      rw [← same]
      exact steady.awaits_enqueue (succeeds.2 time rfl) row
    · exact .inr (nextYaml_covers same toQueue y)

/-- A step of a callback leaves no YAML behind. -/
lemma VersionOp.Does.callback_attends {w w' : Versioned I V} {op : VersionOp lib I V} {x : VersionGiven I V}
    {t : VersionTask lib I V} {n : ℕ} {job : ValidationJob I V} {r : ValidationResult} {k : I}
    (callback : op = .callbackRead n job r k ∨ op = .callbackVersion n job r k ∨ op = .callbackWrite n job r k)
    (steady : w.Steady) (succeeds : w.Succeeds x) (does : op.Does w x w' t) {id : I} {y : Yaml V}
    (row : w'.latest id = some y) (unknown : y.validationStatus = .unknown) :
    HandsOn w (.running op) w' t id y := by
  rcases callback with rfl | rfl | rfl
  · cases does with
    | fails => exact absurd rfl succeeds.1
    | rollback _ h => exact absurd rfl succeeds.1
    | reads aside _ => exact False.elim aside
    | asks _ _ aside _ _ => exact False.elim aside
    | gone n job r k missing =>
      refine .frame row rfl (.refl w) rfl ?_
      rintro ⟨rfl, -, newer⟩
      obtain ⟨y', found, -⟩ := steady.newer row newer
      rw [found] at missing
      cases missing
    | older n job r k found older =>
      refine .frame row rfl (.refl w) rfl ?_
      rintro ⟨rfl, -, newer⟩
      obtain ⟨y', found', newer'⟩ := steady.newer row newer
      obtain rfl := Option.some.inj (found.symm.trans found')
      exact absurd older (by simp [newer'])
    | newer n job r k =>
      refine .frame row rfl (.refl w) rfl ?_
      rintro ⟨same, version, -⟩
      exact .inr ⟨same, version⟩
    | unversioned n job r k =>
      refine .frame row rfl (.refl w) rfl ?_
      rintro ⟨same, -⟩
      exact .inr same
  · cases does with
    | fails => exact absurd rfl succeeds.1
    | rollback _ h => exact absurd rfl succeeds.1
    | reads aside _ => exact False.elim aside
    | asks _ _ aside _ _ => exact False.elim aside
    | other n job r k other =>
      refine .frame row rfl (.refl w) rfl ?_
      rintro ⟨-, version⟩
      exact absurd version other
    | same n job r k =>
      refine .frame row rfl (.refl w) rfl ?_
      rintro ⟨same, -⟩
      exact .inr same
  · cases does with
    | fails => exact absurd rfl succeeds.1
    | rollback _ h => exact absurd rfl succeeds.1
    | reads aside _ => exact False.elim aside
    | asks _ _ aside _ _ => exact False.elim aside
    | record n job r k upd =>
      obtain ⟨-, -, -, sameRoom, jobs, reports⟩ := steady.update_latest upd
      obtain ⟨ne, before⟩ := steady.update_other upd (fun _ => ValidationResult.outcome_known) row unknown
      refine .frame before (congrArg _ sameRoom) (Versioned.Grows.of_jobs jobs reports) reports ?_
      intro same
      exact absurd same.symm ne

/-- A step of another operation leaves no YAML behind. -/
lemma VersionOp.Does.aside_attends {w w' : Versioned I V} {op : VersionOp lib I V} {x : VersionGiven I V}
    {t : VersionTask lib I V} (aside : op.Aside) (steady : w.Steady) (knows : op.Knows w)
    (attentive : w.Attentive (.running op) x) (does : op.Does w x w' t) {id : I} {y : Yaml V}
    (row : w'.latest id = some y) (unknown : y.validationStatus = .unknown) :
    w'.SeesTo t id y ∨ HandsOn w (.running op) w' t id y := by
  obtain ⟨succeeds, leaves⟩ := attentive
  have notOwn : ∀ {w₁ : Versioned I V} {version : V}, (VersionTask.running op).Covers version id y →
      w₁.Awaits version id y ∨ t.Covers version id y := fun covers => absurd covers aside.not_covers
  cases does with
  | fails => exact absurd rfl succeeds.1
  | rollback _ _ => exact absurd rfl succeeds.1
  | reads _ _ => exact .inr (.frame row rfl (.refl w) rfl notOwn)
  | asks params time _ _ _ => exact .inr (.frame row rfl (w.grows_enqueue _ _) rfl notOwn)
  | commit target yamls free =>
    left
    have clean : w.dirty id = none := steady.not_dirty (by rw [free]; exact List.not_mem_nil)
    have row : (w.dirty id).or ((w.yamls id).map Yaml.resetStatus) = some y := row
    rw [clean, Option.none_or, Option.map_eq_some_iff] at row
    obtain ⟨y', found, rfl⟩ := row
    rcases leaves id y' found with listed | awaits
    · exact .inr listed
    · exact .inl awaits
  | submit room form =>
    rcases leaves with same | awaits
    · exact .inr (.frame row same (.refl w) rfl notOwn)
    · exact .inl (.inl (awaits id y row unknown))
  | insert u time ids _ _ =>
    refine .inr (.frame ?_ rfl (.refl w) rfl notOwn)
    have row : (w.dirty id).or (((ids.zip u.done).lookup id).elim (w.yamls id) fun c => some (c.toYaml time)) =
        some y := row
    rcases new : (ids.zip u.done).lookup id with _ | c
    · rw [new, Option.elim_none] at row
      exact row
    · rw [new, Option.elim_some] at row
      rcases dirty : w.dirty id with _ | y'
      · rw [dirty, Option.none_or] at row
        obtain rfl := Option.some.inj row
        exact absurd unknown (knows c (List.of_mem_zip (mem_of_lookup new)).2).1
      · rw [dirty, Option.some_or] at row
        rw [Versioned.latest, dirty, Option.some_or, row]
  | edit e status apworlds error source time upd =>
    obtain ⟨-, -, -, sameRoom, jobs, reports⟩ := steady.update_latest upd
    obtain ⟨-, before⟩ := steady.update_other upd (fun _ => knows.1) row unknown
    exact .inr (.frame before (congrArg _ sameRoom) (Versioned.Grows.of_jobs jobs reports) reports notOwn)
  | _ => exact False.elim aside

/-- A step of an operation leaves no YAML behind. -/
lemma VersionOp.Does.attends {w w' : Versioned I V} {op : VersionOp lib I V} {x : VersionGiven I V}
    {t : VersionTask lib I V} (steady : w.Steady) (knows : op.Knows w)
    (attentive : w.Attentive (.running op) x) (does : op.Does w x w' t) {id : I} {y : Yaml V}
    (row : w'.latest id = some y) (unknown : y.validationStatus = .unknown) :
    w'.SeesTo t id y ∨ HandsOn w (.running op) w' t id y := by
  have succeeds := attentive.1
  cases op with
  | queue room q rest written => exact does.queue_attends steady knows attentive row unknown
  | callbackRead n job r k => exact .inr (does.callback_attends (.inl rfl) steady succeeds row unknown)
  | callbackVersion n job r k =>
    exact .inr (does.callback_attends (.inr (.inl rfl)) steady succeeds row unknown)
  | callbackWrite n job r k =>
    exact .inr (does.callback_attends (.inr (.inr rfl)) steady succeeds row unknown)
  | switchReread yamls =>
    cases does with
    | fails => exact absurd rfl succeeds.1
    | rollback _ _ => exact absurd rfl succeeds.1
    | reads aside _ => exact False.elim aside
    | asks _ _ aside _ _ => exact False.elim aside
    | reread yamls =>
      refine .inr (.frame row rfl (.refl w) rfl ?_)
      rintro ⟨listed, mem, rfl⟩
      refine .inr (nextYaml_covers rfl ⟨_, List.mem_map_of_mem mem, rfl, ?_⟩ y)
      exact YamlValidationStatus.noConfusion
  | submitEnd written =>
    cases does with
    | fails => exact absurd rfl succeeds.1
    | rollback _ _ => exact absurd rfl succeeds.1
    | reads aside _ => exact False.elim aside
    | asks _ _ aside _ _ => exact False.elim aside
    | finish written =>
      rw [w.latest_commit written id] at row
      exact .inr (.frame row rfl (.refl w) rfl fun covers => False.elim covers)
  | _ => exact does.aside_attends (by trivial) steady knows attentive row unknown

/-! ## Transactions -/

omit [DecidableEq I] in
/-- The thread is in a transaction that has written the row. -/
def VersionTask.Holds (id : I) : VersionTask lib I V → Prop
  | .running (.queue _ _ _ (some written)) | .running (.submitEnd written) => id ∈ written
  | _ => False

omit [DecidableEq I] in
/-- A transaction that goes on in a queue holds what it has. -/
lemma nextYaml_holds {room : ValidatingRoom V} {written : Option (List I)} {rest : List (I × Yaml V)} {id : I}
    (mem : ∃ l, written = some l ∧ id ∈ l) :
    (nextYaml room written rest : VersionTask lib I V).Holds id := by
  obtain ⟨l, rfl, mem⟩ := mem
  unfold nextYaml
  split
  · exact mem
  · split
    · exact mem
    · exact mem

omit [DecidableEq I] in
lemma VersionOp.Aside.not_holds {op : VersionOp lib I V} (aside : op.Aside) {id : I} :
    ¬ (VersionTask.running op).Holds id := by
  cases op with
  | queue _ _ _ _ => exact False.elim aside
  | submitEnd _ => exact False.elim aside
  | _ => exact fun holds => holds

omit [DecidableEq I] in
lemma holds_queue {room : ValidatingRoom V} {q : QueueStep I V} {rest : List (I × Yaml V)}
    {written : Option (List I)} {id : I} :
    (VersionTask.running (.queue room q rest written) : VersionTask lib I V).Holds id ↔
      ∃ l, written = some l ∧ id ∈ l := by
  cases written with
  | none => exact ⟨fun holds => False.elim holds, fun ⟨l, e, _⟩ => by cases e⟩
  | some l => exact ⟨fun holds => ⟨l, rfl, holds⟩, fun ⟨_, rfl, mem⟩ => mem⟩

/-- The rows that are locked after an update in a queue. -/
lemma Versioned.update_locks {w w' : Versioned I V} {written : Option (List I)} {k : I} {f : Yaml V → Yaml V}
    (upd : w.update written k f = some w') {id : I} (locked : id ∈ w'.locks) :
    (∃ l, written.map (k :: ·) = some l ∧ id ∈ l) ∨
      id ∈ w.locks ∧ ((∃ l, written = some l ∧ id ∈ l) → ∃ l, written.map (k :: ·) = some l ∧ id ∈ l) := by
  have more : (∃ l, written = some l ∧ id ∈ l) → ∃ l, written.map (k :: ·) = some l ∧ id ∈ l := by
    rintro ⟨l, rfl, mem⟩
    exact ⟨k :: l, rfl, List.mem_cons_of_mem _ mem⟩
  obtain ⟨-, ⟨-, rfl⟩ | ⟨⟨l, rfl⟩, rfl⟩⟩ := Versioned.update_cases upd
  · exact .inr ⟨locked, more⟩
  · rcases List.mem_cons.mp locked with rfl | locked
    · exact .inl ⟨id :: l, rfl, List.mem_cons_self⟩
    · exact .inr ⟨locked, more⟩

/-- A row that is locked is held by the thread of the step, or it was locked and not held by it. -/
lemma VersionOp.Does.holds {w w' : Versioned I V} {op : VersionOp lib I V} {x : VersionGiven I V}
    {t : VersionTask lib I V} (succeeds : w.Succeeds x) (does : op.Does w x w' t) {id : I}
    (locked : id ∈ w'.locks) :
    t.Holds id ∨ id ∈ w.locks ∧ ((VersionTask.running op).Holds id → t.Holds id) := by
  cases does with
  | fails => exact absurd rfl succeeds.1
  | rollback _ _ => exact absurd rfl succeeds.1
  | reads aside _ => exact .inr ⟨locked, fun holds => absurd holds aside.not_holds⟩
  | asks _ _ aside _ _ => exact .inr ⟨locked, fun holds => absurd holds aside.not_holds⟩
  | finish written =>
    obtain ⟨locked, other⟩ := List.mem_filter.mp locked
    refine .inr ⟨locked, fun holds => ?_⟩
    have holds : id ∈ written := holds
    simp [holds] at other
  | found _ _ _ _ _ _ => exact .inr ⟨locked, fun holds => holds_queue.mpr (holds_queue.mp holds)⟩
  | missing _ _ _ _ _ _ => exact .inr ⟨locked, fun holds => holds_queue.mpr (holds_queue.mp holds)⟩
  | skip _ _ _ _ _ _ _ => exact .inr ⟨locked, fun holds => nextYaml_holds (holds_queue.mp holds)⟩
  | enqueue _ _ _ _ _ _ _ => exact .inr ⟨locked, fun holds => nextYaml_holds (holds_queue.mp holds)⟩
  | settle _ _ _ _ _ _ _ upd =>
    refine (Versioned.update_locks upd locked).imp nextYaml_holds fun ⟨before, more⟩ => ⟨before, fun holds => ?_⟩
    exact nextYaml_holds (more (holds_queue.mp holds))
  | reset _ _ _ _ _ _ upd =>
    refine (Versioned.update_locks upd locked).imp holds_queue.mpr fun ⟨before, more⟩ => ⟨before, fun holds => ?_⟩
    exact holds_queue.mpr (more (holds_queue.mp holds))
  | edit _ _ _ _ _ _ upd =>
    obtain ⟨-, ⟨-, rfl⟩ | ⟨⟨l, ⟨⟩⟩, -⟩⟩ := Versioned.update_cases upd
    exact .inr ⟨locked, fun holds => False.elim holds⟩
  | record _ _ _ _ upd =>
    obtain ⟨-, ⟨-, rfl⟩ | ⟨⟨l, ⟨⟩⟩, -⟩⟩ := Versioned.update_cases upd
    exact .inr ⟨locked, fun holds => False.elim holds⟩
  | _ => exact .inr ⟨locked, fun holds => False.elim holds⟩

/-! ## Runs -/

omit [DecidableEq I] in
/-- What holds along a run that leaves no YAML behind. -/
structure Orderly (s : Conf (Versioned I V) (VersionTask lib I V)) : Prop where
  steady : s.shared.Steady
  attended : Attended s
  held : ∀ id ∈ s.shared.locks, ∃ k, (s.pc k).Holds id

/-- A step of an operation keeps the room in order. -/
lemma Orderly.op {s : Conf (Versioned I V) (VersionTask lib I V)} {i : ℕ} {op : VersionOp lib I V}
    {x : VersionGiven I V} {w : Versioned I V} {t : VersionTask lib I V} (orderly : Orderly s)
    (at_ : s.pc i = .running op) (knows : op.Knows s.shared)
    (attentive : s.shared.Attentive (.running op) x) (does : op.Does s.shared x w t) :
    Orderly (s.move i w t) := by
  refine ⟨does.steady orderly.steady knows attentive.1, fun id y row unknown => ?_, fun id locked => ?_⟩
  · rcases does.attends orderly.steady knows attentive row unknown with seen | hands
    · rcases seen with awaits | covers
      · exact .inl awaits
      · exact .inr ⟨i, by rwa [Conf.move_pc_self]⟩
    · rw [← at_] at hands
      exact (orderly.attended id y hands.row unknown).handsOn hands
  · rcases does.holds attentive.1 locked with holds | ⟨before, own⟩
    · exact ⟨i, by rwa [Conf.move_pc_self]⟩
    · obtain ⟨k, holds⟩ := orderly.held id before
      by_cases same : k = i
      · subst same
        rw [at_] at holds
        exact ⟨k, by rw [Conf.move_pc_self]; exact own holds⟩
      · exact ⟨k, by rwa [Conf.move_pc_of_ne same]⟩

omit [DecidableEq I] in
lemma VersionTask.not_covers {t : VersionTask lib I V} (idle : ∀ op, t ≠ .running op) {version : V} {id : I}
    {y : Yaml V} : ¬ t.Covers version id y := by
  cases t with
  | running op => exact absurd rfl (idle op)
  | _ => exact fun covers => covers

omit [DecidableEq I] in
lemma VersionTask.not_holds {t : VersionTask lib I V} (idle : ∀ op, t ≠ .running op) {id : I} : ¬ t.Holds id := by
  cases t with
  | running op => exact absurd rfl (idle op)
  | _ => exact fun holds => holds

omit [DecidableEq I] in
/-- A call hands on each YAML; one whose job is answered has its callback. -/
lemma VersionRequest.start_handsOn {w w' : Versioned I V} {c : VersionRequest I V} {q t : VersionTask lib I V}
    (idle : ∀ op, q ≠ .running op) (st : c.start w = some (w', t)) {id : I} {y : Yaml V}
    (row : w.latest id = some y) : HandsOn w q w' t id y := by
  rcases VersionRequest.start_cases st with ⟨rfl, -⟩ | ⟨n, r, job, -, found, rfl, next⟩
  · exact .frame row rfl (.refl _) rfl fun covers => absurd covers (VersionTask.not_covers idle)
  · refine ⟨row, rfl, ?_, fun covers => absurd covers (VersionTask.not_covers idle)⟩
    rintro ⟨n', job', found', named, version, unreported, newer⟩
    by_cases same : n' = n
    · subst same
      obtain rfl := Option.some.inj (found.symm.trans found')
      rcases next with ⟨anonymous, -⟩ | ⟨k, named', rfl⟩
      · rw [named] at anonymous
        cases anonymous
      · exact .inr ⟨Option.some.inj (named'.symm.trans named), version, newer⟩
    · refine .inl ⟨n', job', found', named, version, fun r' reported => ?_, newer⟩
      rcases List.mem_cons.mp reported with e | reported
      · exact same (congrArg Prod.fst e)
      · exact unreported r' reported

omit [DecidableEq I] in
/-- A call keeps the room in order. -/
lemma Orderly.call {s : Conf (Versioned I V) (VersionTask lib I V)} {i : ℕ} {c : VersionRequest I V}
    {w : Versioned I V} {t : VersionTask lib I V} (orderly : Orderly s) (idle : ∀ op, s.pc i ≠ .running op)
    (st : c.start s.shared = some (w, t)) : Orderly (s.move i w t) := by
  have hands : ∀ id y, s.shared.latest id = some y → HandsOn s.shared (s.pc i) w t id y :=
    fun id y row => VersionRequest.start_handsOn idle st row
  have held : ∀ id ∈ s.shared.locks, ∃ k, ((s.move i w t).pc k).Holds id := by
    intro id locked
    obtain ⟨k, holds⟩ := orderly.held id locked
    refine ⟨k, ?_⟩
    rw [Conf.move_pc_of_ne]
    · exact holds
    · rintro rfl
      exact absurd holds (VersionTask.not_holds idle)
  rcases VersionRequest.start_cases st with ⟨rfl, -⟩ | ⟨n, r, job, -, found, rfl, -⟩
  · refine ⟨orderly.steady, fun id y row unknown => ?_, held⟩
    exact (orderly.attended id y row unknown).handsOn (hands id y row)
  · obtain ⟨rows, jobs, reports, locked, dirty⟩ := orderly.steady
    refine ⟨⟨rows, jobs, fun n' r' mem => ?_, locked, dirty⟩, fun id y row unknown => ?_, held⟩
    · rcases List.mem_cons.mp mem with e | mem
      · obtain rfl : n' = n := congrArg Prod.fst e
        exact (List.getElem?_eq_some_iff.mp found).1
      · exact reports n' r' mem
    · exact (orderly.attended id y row unknown).handsOn (hands id y row)

variable [DecidableEq V]

/-- Every run that leaves no YAML behind keeps the room in order. -/
lemma Run.orderly {room : ValidatingRoom V} {tr s}
    (run : Run (versionMachine lib I V) (Cond.here Versioned.Attentive) (Versioned.fresh lib I room) tr s) :
    Orderly s := by
  induction run with
  | nil =>
    refine ⟨⟨fun id y there => ?_, fun job mem => ?_, fun n r mem => ?_, fun id y there => ?_,
      fun id y there => ?_⟩, fun id y there => ?_, fun id mem => ?_⟩
    · cases there
    · cases mem
    · cases mem
    · cases there
    · cases there
    · cases there
    · cases mem
  | @cons tr s i x w t run attentive st orderly =>
    have knows := (Run.versionKnows run).2 i
    have attentive : s.shared.Attentive (s.pc i) x := attentive
    rcases versionMachine_cases st with ⟨op, at_, does⟩ | ⟨idle, c, -, called⟩
    · rw [at_] at knows attentive
      exact orderly.op at_ knows attentive does
    · exact orderly.call idle called

/-- When nothing is in progress, every YAML whose status is unknown has a job for it and for the room's
version whose result has not been delivered yet. -/
theorem unknown_awaits {room : ValidatingRoom V} {tr s}
    (run : Run (versionMachine lib I V) (Cond.here Versioned.Attentive) (Versioned.fresh lib I room) tr s)
    (quiet : ∀ i op, s.pc i ≠ .running op) {id : I} {y : Yaml V} (row : s.shared.yamls id = some y)
    (unknown : y.validationStatus = .unknown) : s.shared.Unanswered s.shared.room.apVersion id := by
  have orderly := Run.orderly run
  have free : id ∉ s.shared.locks := by
    intro locked
    obtain ⟨k, holds⟩ := orderly.held id locked
    exact VersionTask.not_holds (quiet k) holds
  have latest : s.shared.latest id = some y := by
    rw [Versioned.latest, orderly.steady.not_dirty free, Option.none_or, row]
  rcases orderly.attended id y latest unknown with ⟨n, job, found, named, version, unreported, -⟩ | ⟨k, covers⟩
  · exact ⟨n, job, found, named, version, unreported⟩
  · exact absurd covers (VersionTask.not_covers (quiet k))

end

/-! ## Two YAMLs that are left behind -/

/-- The operations succeed, as can be checked. -/
def succeedsOnly (s : Conf (Versioned ℕ ℕ) (VersionTask sampleLib ℕ ℕ)) (_ : ℕ) (x : VersionGiven ℕ ℕ) : Bool :=
  match x with
  | .fail => false
  | x => x.time.all fun t => decide (s.shared.clock < t)

lemma succeeds_of_only {s : Conf (Versioned ℕ ℕ) (VersionTask sampleLib ℕ ℕ)} {i : ℕ} {x : VersionGiven ℕ ℕ}
    (h : succeedsOnly s i x = true) : s.shared.Succeeds x := by
  refine ⟨fun fails => ?_, fun t now => ?_⟩
  · subst fails
    cases h
  · unfold succeedsOnly at h
    split at h
    · cases h
    · rw [now] at h
      exact of_decide_eq_true h

/-- A YAML is inserted after a move of the room has read those that are there, and before the move is
written. -/
def insertedInMove : List (ℕ × VersionGiven ℕ ℕ) :=
  uploading 0 5000 ++ [(1, .call (.switchBase 2 true)), (1, .go), (1, .go), (1, .go)] ++ uploaded 0 2 0 6000 ++
    [(1, .go), (1, .go)]

/-- The callback for the job `n` of YAML 0, by `k`. -/
def answered (k n : ℕ) : List (ℕ × VersionGiven ℕ ℕ) :=
  [(k, .call (.resolve n succeeded)), (k, .go), (k, .go), (k, .go)]

/-- A retry has read the room, which is moved then; the YAML is validated on the new version before the retry
resets its status and queues it for the old one, whose result is dropped. -/
def retriedInMove : List (ℕ × VersionGiven ℕ ℕ) :=
  uploading 0 5000 ++ uploaded 0 2 0 6000 ++
    [(3, .call (.retryYaml 0)), (3, .go), (3, .go), (3, .apworlds (.ok []))] ++
    switching 1 ++ [(1, .apworlds (.ok [])), (1, .go), (1, .now 7000)] ++ answered 2 1 ++
    [(3, .go), (3, .now 8000), (2, .call (.resolve 2 succeeded)), (2, .go), (2, .go)]

/-- A job for YAML 0 that is for the version of the room and not answered. -/
def hasJob (w : Versioned ℕ ℕ) : Bool :=
  (List.range w.jobs.length).any fun n =>
    (w.jobs[n]?.any fun job => job.params.yamlId == some 0 && job.params.apVersion == some w.room.apVersion) &&
      !(w.reports.map Prod.fst).contains n

lemma hasJob_of_unanswered {w : Versioned ℕ ℕ} (unanswered : w.Unanswered w.room.apVersion 0) :
    hasJob w = true := by
  obtain ⟨n, job, found, named, version, unreported⟩ := unanswered
  have first : (w.reports.map Prod.fst).contains n = false := by
    rw [Bool.eq_false_iff, ne_eq, List.contains_iff_mem, List.mem_map]
    rintro ⟨⟨n', r⟩, reported, rfl⟩
    exact unreported r reported
  refine List.any_eq_true.mpr ⟨n, List.mem_range.mpr (List.getElem?_eq_some_iff.mp found).1, ?_⟩
  rw [found, Option.any_some, named, version, first]
  simp

lemma unknown_left_after {l : List (ℕ × VersionGiven ℕ ℕ)} (mem : l ∈ [insertedInMove, retriedInMove]) :
    ∃ tr, Run (versionMachine sampleLib ℕ ℕ) (Cond.here fun w _ x => w.Succeeds x) emptyRoom tr
        (finalOf (versionMachine sampleLib ℕ ℕ) emptyRoom l) ∧
      (∀ i op, (finalOf (versionMachine sampleLib ℕ ℕ) emptyRoom l).pc i ≠ .running op) ∧
      ∃ y, (finalOf (versionMachine sampleLib ℕ ℕ) emptyRoom l).shared.yamls 0 = some y ∧
        y.validationStatus = .unknown ∧
        ¬ (finalOf (versionMachine sampleLib ℕ ℕ) emptyRoom l).shared.Unanswered
          (finalOf (versionMachine sampleLib ℕ ℕ) emptyRoom l).shared.room.apVersion 0 := by
  have ok : checked (versionMachine sampleLib ℕ ℕ) succeedsOnly emptyRoom l = true := by
    revert l
    decide
  have row : ((finalOf (versionMachine sampleLib ℕ ℕ) emptyRoom l).shared.yamls 0).any
      (fun y => y.validationStatus = .unknown) = true := by
    revert l
    decide
  have none_ : hasJob (finalOf (versionMachine sampleLib ℕ ℕ) emptyRoom l).shared = false := by
    revert l
    decide
  have bound : ∀ a ∈ l, a.1 < 4 := by
    revert l
    decide
  have rest : ∀ k < 4, ((finalOf (versionMachine sampleLib ℕ ℕ) emptyRoom l).pc k).isResting = true := by
    revert l
    decide
  obtain ⟨y, found, unknown⟩ := (Option.any_eq_true _ _).mp row
  refine ⟨_, exec_run_checked succeeds_of_only ok, fun i op at_ => ?_, y, found, of_decide_eq_true unknown,
    fun unanswered => ?_⟩
  · have resting := finalOf_forall (P := fun _ (t : VersionTask sampleLib ℕ ℕ) => t.isResting = true)
      (fun _ => rfl) bound rest i
    rw [at_] at resting
    cases resting
  · rw [hasJob_of_unanswered unanswered] at none_
    cases none_

/-- The operations all succeed and nothing is in progress, but the status of the YAML is unknown, and no job
for it and the room's version is still to be answered: after either run. -/
theorem unknown_left_behind :
    (∃ tr s, Run (versionMachine sampleLib ℕ ℕ) (Cond.here fun w _ x => w.Succeeds x) emptyRoom tr s ∧
      s = finalOf (versionMachine sampleLib ℕ ℕ) emptyRoom insertedInMove ∧ (∀ i op, s.pc i ≠ .running op) ∧
      ∃ y, s.shared.yamls 0 = some y ∧ y.validationStatus = .unknown ∧
        ¬ s.shared.Unanswered s.shared.room.apVersion 0) ∧
    (∃ tr s, Run (versionMachine sampleLib ℕ ℕ) (Cond.here fun w _ x => w.Succeeds x) emptyRoom tr s ∧
      s = finalOf (versionMachine sampleLib ℕ ℕ) emptyRoom retriedInMove ∧ (∀ i op, s.pc i ≠ .running op) ∧
      ∃ y, s.shared.yamls 0 = some y ∧ y.validationStatus = .unknown ∧
        ¬ s.shared.Unanswered s.shared.room.apVersion 0) := by
  constructor
  · obtain ⟨tr, run, left⟩ := unknown_left_after List.mem_cons_self
    exact ⟨tr, _, run, rfl, left⟩
  · obtain ⟨tr, run, left⟩ := unknown_left_after (List.mem_cons_of_mem _ List.mem_cons_self)
    exact ⟨tr, _, run, rfl, left⟩

/-- A status is reset for a job on the room's version, and the room keeps it. -/
def staysOnly (s : Conf (Versioned ℕ ℕ) (VersionTask sampleLib ℕ ℕ)) (i : ℕ) (x : VersionGiven ℕ ℕ) : Bool :=
  match s.pc i, x with
  | .running (.switchCommit _ _), .go => false
  | .running (.queue room (.reset _ _ _) _ _), .go => room.apVersion == s.shared.room.apVersion
  | .running (.submitUpdate room _), .go => room.apVersion == s.shared.room.apVersion
  | _, _ => true

lemma leavesNone_of_only {s : Conf (Versioned ℕ ℕ) (VersionTask sampleLib ℕ ℕ)} {i : ℕ} {x : VersionGiven ℕ ℕ}
    (h : staysOnly s i x = true) : s.shared.LeavesNone (s.pc i) x := by
  unfold Versioned.LeavesNone
  split
  case h_1 at_ => simp [staysOnly, at_] at h
  case h_2 at_ =>
    simp only [staysOnly, at_, beq_iff_eq] at h
    exact fun _ _ => .inl h
  case h_3 at_ =>
    simp only [staysOnly, at_, beq_iff_eq] at h
    exact .inl h
  case h_4 => trivial

/-- Both. -/
def attentiveOnly (s : Conf (Versioned ℕ ℕ) (VersionTask sampleLib ℕ ℕ)) (i : ℕ) (x : VersionGiven ℕ ℕ) : Bool :=
  succeedsOnly s i x && staysOnly s i x

lemma attentive_of_only {tr : List (Event (VersionTask sampleLib ℕ ℕ) (VersionGiven ℕ ℕ))}
    {s : Conf (Versioned ℕ ℕ) (VersionTask sampleLib ℕ ℕ)} {i : ℕ} {x : VersionGiven ℕ ℕ}
    (h : attentiveOnly s i x = true) :
    Cond.here (π := VersionTask sampleLib ℕ ℕ) Versioned.Attentive tr s i x := by
  rw [attentiveOnly, Bool.and_eq_true] at h
  exact ⟨succeeds_of_only h.1, leavesNone_of_only h.2⟩

/-- A YAML is uploaded, and queued again. -/
def retried : List (ℕ × VersionGiven ℕ ℕ) :=
  uploading 0 5000 ++ uploaded 0 2 0 6000 ++
    [(3, .call (.retryYaml 0)), (3, .go), (3, .go), (3, .apworlds (.ok [])), (3, .go), (3, .now 7000)]

/-- It then waits for the job that was queued. -/
theorem retried_awaits :
    ((finalOf (versionMachine sampleLib ℕ ℕ) emptyRoom retried).shared.yamls 0).any
        (fun y => y.validationStatus = .unknown) = true ∧
      (finalOf (versionMachine sampleLib ℕ ℕ) emptyRoom retried).shared.Unanswered 1 0 := by
  have row : ((finalOf (versionMachine sampleLib ℕ ℕ) emptyRoom retried).shared.yamls 0).any
      (fun y => y.validationStatus = .unknown) = true := by decide
  have rest : ∀ i, ((finalOf (versionMachine sampleLib ℕ ℕ) emptyRoom retried).pc i).isResting = true := by
    apply finalOf_forall (P := fun _ (t : VersionTask sampleLib ℕ ℕ) => t.isResting = true) (b := 4)
      (fun _ => rfl) (by decide)
    decide
  have run : Run (versionMachine sampleLib ℕ ℕ) (Cond.here Versioned.Attentive) emptyRoom _ _ :=
    exec_run_checked (c := attentiveOnly) (l := retried) attentive_of_only (by decide)
  refine ⟨row, ?_⟩
  obtain ⟨y, found, unknown⟩ := (Option.any_eq_true _ _).mp row
  refine unknown_awaits run (fun i op at_ => ?_) found (of_decide_eq_true unknown)
  exact absurd (rest i) (by rw [at_]; exact Bool.false_ne_true)

end ArchipelagoXL.Lobby
