import ArchipelagoXL.Lobby.Generation

/-!
# A room that has a generation

A generation is made with the version of the room and with its YAMLs, which are numbered by `get_slots`. The
patches and the passwords go by these numbers, so the room is to stay as it was for the job while there is a
row for it (`Site.KeepsSlots`).

`switch_base` and `delete_yaml_api` look for a generation, and the other requests rely on a closing date that
has passed. Both look before they write, and the closing date can be moved. A run keeps the slots while no
step brings in or takes away what the generation was made with (`generated_keeps_slots`).
-/

namespace ArchipelagoXL.Lobby

open Interleave

section

variable {I V : Type} [LinearOrder I]

/-- The ids of YAMLs in the order of their slots. -/
def slotIdsOf (yamls : List (RoomYaml I)) : List I :=
  (getSlots (yamls.map RoomYaml.toYamlWithoutContent)).map Prod.snd

/-- The ids of the room's YAMLs in the order of their slots. -/
def Site.slotIds (w : Site I V) : List I := slotIdsOf w.getYamlsForRoom

omit [LinearOrder I] in
/-- The room has a row that a start made for the job. -/
def Site.Generated (w : Site I V) (job : GenerationJob I V) : Prop := job ∈ w.jobs ∧ w.Names job.jobId

/-- The room has the version and the slots of the job. -/
def Site.AsFor (w : Site I V) (job : GenerationJob I V) : Prop :=
  w.room.apVersion = job.apVersion ∧ w.slotIds = slotIdsOf job.yamls

/-- While the room has a generation, it is as it was for its job. -/
def Site.KeepsSlots (w : Site I V) : Prop := ∀ job, w.Generated job → w.AsFor job

/-- The steps that keep a generated room as it is: a start inserts its row in a room that is still as it was
read; and when there is a row that a start made, no version is written but the room's own, and no YAML is
added or removed. -/
def Site.KeepsHere (w : Site I V) : SiteTask I V → SiteInput I V → Prop
  | .running (.startInsert job), .go => w.generation = none → w.AsFor job
  | .running (.switchCommit target), .go => (∃ job, w.Generated job) → target = w.room.apVersion
  | .running (.submitUpdate room _), .go => (∃ job, w.Generated job) → room.apVersion = w.room.apVersion
  | .running .uploadAdd, .documents added => (∃ job, w.Generated job) → added = [] ∨ w.clashes added = true
  | .running (.bundleRemove bundleId), .go =>
    (∃ job, w.Generated job) → ∀ yaml ∈ w.yamls, yaml.bundleId ≠ bundleId
  | .running (.removeYaml id), .go => (∃ job, w.Generated job) → ∀ yaml ∈ w.yamls, yaml.id ≠ id
  | _, _ => True

/-! ## Jobs and their ids -/

omit [LinearOrder I] in
/-- Jobs have ids of their own, and the row names an old one. -/
structure Site.Registered (w : Site I V) : Prop where
  ids : ∀ job ∈ w.jobs, ∀ job' ∈ w.jobs, job.jobId = job'.jobId → job = job'
  known : ∀ job ∈ w.jobs, job.jobId < w.nextJob
  row : ∀ gen, w.generation = some gen → gen.jobId < w.nextJob

omit [LinearOrder I] in
/-- A start inserts a row for a job that was queued, and an upload for none. -/
def SiteTask.Registered (w : Site I V) : SiteTask I V → Prop
  | .running (.startInsert job) => job ∈ w.jobs
  | .running (.manualInsert jobId) => jobId < w.nextJob ∧ ∀ job ∈ w.jobs, job.jobId ≠ jobId
  | _ => True

omit [LinearOrder I] in
lemma SiteTask.Plain.registered {t : SiteTask I V} (plain : t.Plain) (w : Site I V) : t.Registered w := by
  cases t with
  | running op => cases op <;> trivial
  | _ => trivial

omit [LinearOrder I] in
/-- What a thread knows of the jobs stays when a new one comes. -/
lemma SiteTask.Registered.mono {w w' : Site I V} {t : SiteTask I V} (knows : t.Registered w)
    (nextJob : w.nextJob ≤ w'.nextJob) (kept : ∀ job ∈ w.jobs, job ∈ w'.jobs)
    (new : ∀ job ∈ w'.jobs, job ∈ w.jobs ∨ w.nextJob ≤ job.jobId) : t.Registered w' := by
  cases t with
  | idle => trivial
  | returned _ => trivial
  | running op =>
    cases op with
    | startInsert job => exact kept job knows
    | manualInsert jobId =>
      obtain ⟨known, other⟩ := knows
      refine ⟨Nat.lt_of_lt_of_le known nextJob, fun job mem => ?_⟩
      rcases new job mem with there | later
      · exact other job there
      · omega
    | _ => trivial

omit [LinearOrder I] in
/-- A step that leaves the jobs alone. -/
lemma Site.Registered.sameJobs {w w' : Site I V} {t : SiteTask I V} (reg : w.Registered)
    (jobs : w'.jobs = w.jobs) (nextJob : w'.nextJob = w.nextJob)
    (row : ∀ gen, w'.generation = some gen → gen.jobId < w.nextJob) (own : t.Registered w') :
    w'.Registered ∧ t.Registered w' ∧ ∀ q : SiteTask I V, q.Registered w → q.Registered w' := by
  refine ⟨⟨?_, ?_, ?_⟩, own, fun q knows => knows.mono nextJob.ge ?_ ?_⟩
  · rw [jobs]
    exact reg.ids
  · rw [jobs, nextJob]
    exact reg.known
  · rw [nextJob]
    exact row
  · intro job mem
    rwa [jobs]
  · intro job mem
    rw [jobs] at mem
    exact .inl mem

/-- An operation keeps the jobs apart. -/
lemma SiteOp.Does.registered {w w' : Site I V} {op : SiteOp I V} {x : SiteInput I V} {t : SiteTask I V}
    (reg : w.Registered) (knows : (SiteTask.running op).Registered w) (does : op.Does w x w' t) :
    w'.Registered ∧ t.Registered w' ∧ ∀ q : SiteTask I V, q.Registered w → q.Registered w' := by
  cases does with
  | reads plain _ => exact reg.sameJobs rfl rfl reg.row (plain.registered _)
  | enqueue room yamls =>
    refine ⟨⟨?_, ?_, fun gen row => Nat.lt_succ_of_lt (reg.row gen row)⟩, List.mem_cons_self, fun q knows =>
      knows.mono (Nat.le_succ _) (fun job mem => List.mem_cons_of_mem _ mem) ?_⟩
    · intro job mem job' mem' same
      rcases List.mem_cons.mp mem with rfl | mem
      · rcases List.mem_cons.mp mem' with rfl | mem'
        · rfl
        · exact absurd same (reg.known job' mem').ne'
      · rcases List.mem_cons.mp mem' with rfl | mem'
        · exact absurd same (reg.known job mem).ne
        · exact reg.ids job mem job' mem' same
    · intro job mem
      rcases List.mem_cons.mp mem with rfl | mem
      · exact Nat.lt_succ_self _
      · exact Nat.lt_succ_of_lt (reg.known job mem)
    · intro job mem
      rcases List.mem_cons.mp mem with rfl | mem
      · exact .inr le_rfl
      · exact .inl mem
  | insert job _ =>
    refine reg.sameJobs rfl rfl (fun gen row => ?_) trivial
    obtain rfl := Option.some.inj row
    exact reg.known job knows
  | cancelRead _ => exact reg.sameJobs rfl rfl reg.row trivial
  | cancel _ => exact reg.sameJobs rfl rfl reg.row trivial
  | delete _ => exact reg.sameJobs rfl rfl (fun gen row => (by cases row)) trivial
  | files =>
    refine ⟨⟨reg.ids, fun job mem => Nat.lt_succ_of_lt (reg.known job mem), fun gen row =>
      Nat.lt_succ_of_lt (reg.row gen row)⟩, ⟨Nat.lt_succ_self _, fun job mem => (reg.known job mem).ne⟩,
      fun q knows => knows.mono (Nat.le_succ _) (fun _ mem => mem) fun _ mem => .inl mem⟩
  | upload jobId _ =>
    refine reg.sameJobs rfl rfl (fun gen row => ?_) trivial
    obtain rfl := Option.some.inj row
    exact knows.1
  | patch _ => exact reg.sameJobs rfl rfl reg.row trivial
  | update jobId status plain =>
    refine reg.sameJobs rfl rfl (fun gen' row' => ?_) (plain.registered _)
    obtain ⟨gen, row, rfl⟩ := Option.map_eq_some_iff.mp row'
    exact reg.row gen row
  | commit _ => exact reg.sameJobs rfl rfl reg.row trivial
  | submit _ _ => exact reg.sameJobs rfl rfl reg.row trivial
  | add _ _ => exact reg.sameJobs rfl rfl reg.row trivial
  | removeBundle _ => exact reg.sameJobs rfl rfl reg.row trivial
  | remove _ => exact reg.sameJobs rfl rfl reg.row trivial

variable [DecidableEq V]

/-- Along every run, jobs and rows have their own ids. -/
lemma Run.registered {room : RoomRecord V} {yamls : List (RoomYaml I)}
    {C : Cond (Site I V) (SiteTask I V) (SiteInput I V)} {tr s}
    (run : Run (siteMachine I V) C (Site.fresh room yamls) tr s) :
    s.shared.Registered ∧ ∀ i, (s.pc i).Registered s.shared := by
  refine run.everyThread (J := Site.Registered) (P := fun w t => t.Registered w) ?_ (fun i => trivial) ?_
  · exact ⟨fun job mem => (by cases mem), fun job mem => (by cases mem), fun gen row => (by cases row)⟩
  · intro i w t x w' t' reg knows st
    have called : x.start w = some (w', t') →
        w'.Registered ∧ t'.Registered w' ∧ ∀ q : SiteTask I V, q.Registered w → q.Registered w' := by
      intro st
      rcases SiteInput.start_cases st with ⟨rfl, plain⟩ | ⟨jobId, status, -, rfl, rfl⟩
      · exact reg.sameJobs rfl rfl reg.row (plain.registered _)
      · exact reg.sameJobs rfl rfl reg.row trivial
    cases t with
    | idle => exact called st
    | returned e => exact called st
    | running op => exact (SiteOp.step_does st).registered reg knows

/-! ## What keeps a generated room as it is -/

omit [LinearOrder I] [DecidableEq V] in
lemma slotIdsOf_length (yamls : List (RoomYaml I)) : (slotIdsOf yamls).length = yamls.length := by
  have same := (getSlots_ids (yamls.map RoomYaml.toYamlWithoutContent)).length_eq
  rw [slotIdsOf, same, List.length_map, List.length_map]

omit [DecidableEq V] in
lemma Site.slotIds_length (w : Site I V) : w.slotIds.length = w.yamls.length := by
  rw [Site.slotIds, slotIdsOf_length, Site.getYamlsForRoom, List.length_insertionSort]

omit [DecidableEq V] in
/-- A step that neither changes the room nor brings in the row of a job. -/
lemma Site.KeepsSlots.frame {w w' : Site I V} (keeps : w.KeepsSlots)
    (generated : ∀ job, w'.Generated job → w.Generated job) (version : w'.room.apVersion = w.room.apVersion)
    (yamls : w'.yamls = w.yamls) : w'.KeepsSlots := by
  intro job made
  obtain ⟨version', slots⟩ := keeps job (generated job made)
  refine ⟨version.trans version', ?_⟩
  rw [Site.slotIds, Site.getYamlsForRoom, yamls]
  exact slots

omit [DecidableEq V] in
/-- A write of the room's version or its YAMLs keeps the slots if it changes nothing while there is a row. -/
lemma Site.KeepsSlots.write {w w' : Site I V} (keeps : w.KeepsSlots) (jobs : w'.jobs = w.jobs)
    (row : w'.generation = w.generation)
    (same : (∃ job, w.Generated job) → w'.room.apVersion = w.room.apVersion ∧ w'.yamls = w.yamls) :
    w'.KeepsSlots := by
  intro job made
  have before : w.Generated job := by
    obtain ⟨mem, gen, row', named⟩ := made
    exact ⟨jobs ▸ mem, gen, row ▸ row', named⟩
  obtain ⟨version, yamls⟩ := same ⟨job, before⟩
  exact keeps.frame (fun job' made' => ⟨jobs ▸ made'.1, by rw [Site.Names, ← row]; exact made'.2⟩)
    version yamls job made

omit [DecidableEq V] in
/-- An operation under the condition keeps the slots. -/
lemma SiteOp.Does.keepsSlots {w w' : Site I V} {op : SiteOp I V} {x : SiteInput I V} {t : SiteTask I V}
    (reg : w.Registered) (knows : (SiteTask.running op).Registered w) (keeps : w.KeepsSlots)
    (here : w.KeepsHere (.running op) x) (does : op.Does w x w' t) : w'.KeepsSlots := by
  cases does with
  | reads _ _ => exact keeps
  | enqueue room yamls =>
    refine keeps.frame (fun job made => ?_) rfl rfl
    obtain ⟨mem, gen, row, named⟩ := made
    rcases List.mem_cons.mp mem with rfl | mem
    · -- the new job has no row yet
      exact absurd named (reg.row gen row).ne
    · exact ⟨mem, gen, row, named⟩
  | insert job row =>
    intro job' made
    obtain ⟨mem, gen, row', named⟩ := made
    obtain rfl := Option.some.inj row'
    obtain rfl := reg.ids job knows job' mem named
    exact here row
  | cancelRead _ => exact keeps
  | cancel _ => exact keeps
  | delete _ =>
    intro job made
    obtain ⟨-, gen, row, -⟩ := made
    cases row
  | files => exact keeps
  | upload jobId _ =>
    intro job made
    obtain ⟨mem, gen, row, named⟩ := made
    obtain rfl := Option.some.inj row
    exact absurd named.symm (knows.2 job mem)
  | patch _ => exact keeps
  | update jobId status _ =>
    refine keeps.frame (fun job made => ?_) rfl rfl
    obtain ⟨mem, gen', row', named⟩ := made
    obtain ⟨gen, row, rfl⟩ := Option.map_eq_some_iff.mp row'
    exact ⟨mem, gen, row, named⟩
  | commit target => exact keeps.write rfl rfl fun made => ⟨here made, rfl⟩
  | submit room form => exact keeps.write rfl rfl fun made => ⟨here made, rfl⟩
  | add added free =>
    refine keeps.write rfl rfl fun made => ⟨rfl, ?_⟩
    rcases here made with rfl | clash
    · exact List.append_nil _
    · exact absurd (free.symm.trans clash) (by simp)
  | removeBundle bundleId =>
    refine keeps.write rfl rfl fun made => ⟨rfl, List.filter_eq_self.mpr fun yaml mem => ?_⟩
    exact decide_eq_true (here made yaml mem)
  | remove id =>
    refine keeps.write rfl rfl fun made => ⟨rfl, List.filter_eq_self.mpr fun yaml mem => ?_⟩
    exact decide_eq_true (here made yaml mem)

omit [DecidableEq V] in
/-- While there is a row, the slots stay as many as they are. -/
lemma Site.KeepsSlots.length_yamls {w w' : Site I V} (keeps : w.KeepsSlots) (keeps' : w'.KeepsSlots)
    {job : GenerationJob I V} (made : w.Generated job) (made' : w'.Generated job) :
    w'.yamls.length = w.yamls.length := by
  rw [← Site.slotIds_length, ← Site.slotIds_length, (keeps job made).2, (keeps' job made').2]

/-- A step that keeps the slots meets the condition. -/
lemma Site.KeepsSlots.here {w w' : Site I V} {t t' : SiteTask I V} {x : SiteInput I V} {i : ℕ}
    (knows : t.Registered w) (keeps : w.KeepsSlots) (st : siteMachine I V i w t x = some (w', t'))
    (keeps' : w'.KeepsSlots) : w.KeepsHere t x := by
  unfold Site.KeepsHere
  split
  case h_1 job =>
    intro row
    rw [siteMachine, SiteOp.step, row] at st
    cases st
    exact keeps' job ⟨knows, _, rfl, rfl⟩
  case h_2 target =>
    rintro ⟨job, made⟩
    cases st
    exact (keeps' job made).1.trans (keeps job made).1.symm
  case h_3 room form =>
    rintro ⟨job, made⟩
    cases st
    exact (keeps' job made).1.trans (keeps job made).1.symm
  case h_4 added =>
    rintro ⟨job, made⟩
    rw [siteMachine, SiteOp.step] at st
    split at st
    case isTrue clash => exact .inr clash
    case isFalse =>
      cases st
      have same := keeps.length_yamls keeps' made made
      rw [List.length_append] at same
      exact .inl (List.eq_nil_of_length_eq_zero (by omega))
  case h_5 bundleId =>
    rintro ⟨job, made⟩ yaml mem
    cases st
    have same := keeps.length_yamls keeps' made made
    simpa using List.length_filter_eq_length_iff.mp same yaml mem
  case h_6 id =>
    rintro ⟨job, made⟩ yaml mem
    cases st
    have same := keeps.length_yamls keeps' made made
    simpa using List.length_filter_eq_length_iff.mp same yaml mem
  case h_7 => trivial

/-- A run keeps the slots of a generated room in every state if its steps meet the condition, and only
then. -/
theorem generated_keeps_slots {room : RoomRecord V} {yamls : List (RoomYaml I)} {tr s} :
    (Run (siteMachine I V) (Cond.here Site.KeepsHere) (Site.fresh room yamls) tr s → s.shared.KeepsSlots) ∧
      (Run (siteMachine I V) (Cond.leadsTo (siteMachine I V) Site.KeepsSlots) (Site.fresh room yamls) tr s →
        Run (siteMachine I V) (Cond.here Site.KeepsHere) (Site.fresh room yamls) tr s) := by
  refine Run.keeps_iff (K := fun s => s.shared.Registered ∧ ∀ i, (s.pc i).Registered s.shared) ?_
    Run.registered ?_
  · intro job made
    obtain ⟨mem, -⟩ := made
    cases mem
  · intro s i x w p known keeps st
    refine ⟨fun here => ?_, fun keeps' => keeps.here (known.2 i) st keeps'⟩
    have called : x.start s.shared = some (w, p) → w.KeepsSlots := by
      intro st
      rcases SiteInput.start_cases st with ⟨rfl, -⟩ | ⟨jobId, status, -, rfl, -⟩
      · exact keeps
      · exact keeps
    have knows := known.2 i
    rcases at_ : s.pc i with _ | op | e
    · rw [at_] at st
      exact called st
    · rw [at_] at st here knows
      exact (SiteOp.step_does st).keepsSlots known.1 knows keeps here
    · rw [at_] at st
      exact called st

end

/-! ## A room that is opened again -/

/-- A start whose row is inserted. -/
def started (i : ℕ) : List (ℕ × SiteInput ℕ ℕ) := starting i ++ [(i, .go)]

/-- The generation is started; then the owner moves the closing date an hour on, and a YAML is uploaded. -/
def openedAgain : List (ℕ × SiteInput ℕ ℕ) :=
  started 0 ++ [(1, .editRoomSubmit ⟨false, 1⟩ ⟨60 * minute, false, false⟩), (1, .now 1), (1, .go),
    (2, .uploadYaml), (2, .now 2), (2, .documents [⟨⟨1, "Eve", none⟩, 2, 1, .validated⟩])]

/-- The room is moved to another version by a request that has seen no generation, once there is one. -/
def movedLate : List (ℕ × SiteInput ℕ ℕ) :=
  [(1, .switchBase ⟨false, 1⟩ 7 true), (1, .go), (1, .go), (1, .go)] ++ started 0 ++ [(1, .go)]

/-- The job that the room's YAML is generated with. -/
def bobsJob : GenerationJob ℕ ℕ := ⟨0, 6, [⟨⟨0, "Bob", none⟩, 1, 0, .validated⟩]⟩

/-- One request after the other gives a generated room another YAML, and a late write another version. -/
theorem generated_not_keeps_slots :
    (∃ tr s, Run (siteMachine ℕ ℕ) Cond.any closedRoom tr s ∧ s.shared.Generated bobsJob ∧
      s.shared.room.apVersion = bobsJob.apVersion ∧ s.shared.slotIds ≠ slotIdsOf bobsJob.yamls) ∧
    ∃ tr s, Run (siteMachine ℕ ℕ) Cond.any closedRoom tr s ∧ s.shared.Generated bobsJob ∧
      s.shared.room.apVersion ≠ bobsJob.apVersion := by
  constructor
  · refine ⟨_, _, exec_run_any (l := openedAgain) (by decide), ⟨by decide, ⟨0, .pending⟩, by decide, rfl⟩,
      by decide, fun same => ?_⟩
    have yamls : (finalOf (siteMachine ℕ ℕ) closedRoom openedAgain).shared.yamls.length = 2 := by decide
    rw [← Site.slotIds_length, same, slotIdsOf_length] at yamls
    exact absurd yamls (by decide)
  · exact ⟨_, _, exec_run_any (l := movedLate) (by decide), ⟨by decide, ⟨0, .pending⟩, by decide, rfl⟩,
      by decide⟩

/-- A row is inserted for the YAML that is there, and nothing is written while there is one. -/
def keepsOnly (s : Conf (Site ℕ ℕ) (SiteTask ℕ ℕ)) (i : ℕ) (x : SiteInput ℕ ℕ) : Bool :=
  match s.pc i, x with
  | .running (.startInsert job), .go =>
    s.shared.room.apVersion == job.apVersion && s.shared.getYamlsForRoom == job.yamls
  | .running (.switchCommit _), .go | .running (.submitUpdate _ _), .go
  | .running .uploadAdd, .documents _ | .running (.bundleRemove _), .go
  | .running (.removeYaml _), .go => s.shared.generation == none
  | _, _ => true

lemma not_generated_of_none {I V : Type} {w : Site I V} (row : (w.generation == none) = true) :
    ¬ ∃ job, w.Generated job := by
  rintro ⟨job, -, named⟩
  exact not_names_of_none (beq_iff_eq.mp row) named

lemma keepsHere_of_only {tr : List (Event (SiteTask ℕ ℕ) (SiteInput ℕ ℕ))} {s : Conf (Site ℕ ℕ) (SiteTask ℕ ℕ)}
    {i : ℕ} {x : SiteInput ℕ ℕ} (h : keepsOnly s i x = true) :
    Cond.here (π := SiteTask ℕ ℕ) Site.KeepsHere tr s i x := by
  unfold Cond.here Site.KeepsHere
  split
  case h_1 job at_ =>
    simp only [keepsOnly, at_, Bool.and_eq_true, beq_iff_eq] at h
    exact fun _ => ⟨h.1, congrArg slotIdsOf h.2⟩
  case h_7 => trivial
  all_goals
    rename_i at_
    simp only [keepsOnly, at_] at h
    exact fun made => absurd made (not_generated_of_none h)

/-- The generation is started and canceled, the room is moved and started again; then a YAML is not deleted,
as there is a generation. -/
def movedBetween : List (ℕ × SiteInput ℕ ℕ) :=
  started 0 ++ [(0, .genRoomCancel ⟨false, 1⟩), (0, .go), (0, .go), (0, .go), (0, .go),
    (1, .switchBase ⟨false, 1⟩ 7 true), (1, .go), (1, .go), (1, .go), (1, .go)] ++ started 0 ++
    [(1, .deleteYamlApi 0), (1, .go), (1, .go)]

/-- The room is then as it was for the second job. -/
theorem movedBetween_keeps_slots :
    (finalOf (siteMachine ℕ ℕ) closedRoom movedBetween).shared.Names 1 ∧
      (finalOf (siteMachine ℕ ℕ) closedRoom movedBetween).shared.KeepsSlots :=
  ⟨⟨⟨1, .pending⟩, by decide, rfl⟩,
    generated_keeps_slots.1 (exec_run_checked keepsHere_of_only (by decide))⟩

end ArchipelagoXL.Lobby
