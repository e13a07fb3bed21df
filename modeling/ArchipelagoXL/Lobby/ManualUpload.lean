import ArchipelagoXL.Lobby.Generation
import ArchipelagoXL.Lobby.Numbering
import Mathlib.Data.List.TakeWhile

/-!
# Uploading a generation

The author of a room can upload the archive of a generation that was made elsewhere (`gen_room_manual_upload` in
`lobby/src/views/room/gen.rs`). The patches in the archive are matched to the YAMLs of the room by the number of the
slot in their names (`get_yamls_patches_association` in `lobby/src/jobs.rs`).

The row of the generation is inserted before the archive is opened, so an upload that is let in and then fails leaves
the row, and the numbers are parsed and decremented as they are. The room is left as it was by each upload that is
refused, and the patches are matched by slot, where the archive opens and its numbers fit (`manualUpload_iff`).

The regular expression, the archive and the database come from other crates: what the expression captures, the names of
the archive's files and which accesses fail are parameters.
-/

namespace ArchipelagoXL.Lobby

open Lowercase (CaseTables)

/-! ## The patches of an archive -/

/-- What `AP_PATCH_RE`, `AP[_-][0-9]+[_-]P([0-9]+)[_-](.*)\..*`, captures first in a name that it matches. -/
structure PatchRe where
  captures : String → Option (List Char)
  digits {name : String} {digits : List Char} (is : captures name = some digits) :
    digits ≠ [] ∧ ∀ c ∈ digits, c.isDigit = true

/-- The number that digits stand for. -/
def slotValue (digits : List Char) : ℕ := digits.foldl (fun n c => 10 * n + (c.toNat - 48)) 0

/-- Rust `str::parse::<usize>`, on a text without a sign. -/
def parseUsize (text : List Char) : Option ℕ :=
  if text = [] ∨ ¬ text.all Char.isDigit then none
  else if slotValue text < 2 ^ 64 then some (slotValue text)
  else none

/-- Rust `usize::wrapping_sub` by one. -/
def predUsize (n : ℕ) : ℕ := (n + (2 ^ 64 - 1)) % 2 ^ 64

/-- The accesses of an upload that can fail. -/
inductive UploadStep where
  | connection
  | readRoom
  | readGeneration
  | openUpload
  | readMagic
  | createDir
  | copyUpload
  | writeLog
  | insertGeneration
  | readInserted
  | readYamls
  | generationInfo
  | openOutput
  | openArchive
  | associate
deriving DecidableEq

/-- Why an upload fails; an overflow is a panic, which is answered as an error. -/
inductive UploadError where
  | failed (step : UploadStep)
  | message (text : String)
  | badNumber (fileName : String)
  | overflow
deriving DecidableEq

section
variable (re : PatchRe) (tables : CaseTables) (overflowChecks : Bool) {I : Type} [DecidableEq I]

/-- The turn of `get_yamls_patches_association` for a name. -/
def associateName (slots : List (String × I)) (association : I → Option String) (fileName : String) :
    Except UploadError (I → Option String) :=
  match re.captures fileName with
  | none => .ok association
  | some digits =>
    match parseUsize digits with
    | none => .error (.badNumber fileName)
    | some slotNumber =>
      if slotNumber = 0 ∧ overflowChecks = true then .error .overflow
      else
        match slots[predUsize slotNumber]? with
        | none => .ok association
        | some slot => .ok (Function.update association slot.2 (some fileName))

/-- Rust `get_yamls_patches_association`, on the names of the archive's files; the slots need no more turns than there
are YAMLs (`Numbering.getSlots_numbers`). -/
def getYamlsPatchesAssociation (fileNames : List String) (roomYamls : List (YamlWithoutContent I)) :
    Except UploadError (I → Option String) :=
  let slots := (Numbering.getSlots tables roomYamls.length roomYamls).getD []
  fileNames.foldlM (associateName re overflowChecks slots) fun _ => none

/-! ## The upload -/

/-- The row of a YAML with its patch. -/
structure PatchedYaml (I : Type) extends YamlWithoutContent I where
  patch : Option String

/-- The rows of a room. -/
structure RoomRows (I : Type) where
  authorId : ℤ
  generation : Option Generation
  yamls : List (PatchedYaml I)
  ids : (yamls.map fun yaml => yaml.id).Nodup
  few : yamls.length < 2 ^ 64

/-- Which accesses fail, and the names of the files in an archive that can be opened. -/
structure UploadEnv where
  fails : UploadStep → Bool
  fileNames : List UInt8 → Option (List String)

/-- What `gen_room_manual_upload` gets: the user, the uploaded file if it was stored, and the new id of a job. -/
structure ManualUploadRequest where
  session : UserSession
  file : Option (List UInt8)
  jobId : ℕ

/-- Rust `associate_patch_files`. -/
def associatePatchFiles (association : I → Option String) (rows : RoomRows I) : RoomRows I where
  authorId := rows.authorId
  generation := rows.generation
  yamls := rows.yamls.map fun yaml => { yaml with patch := association yaml.id }
  ids := by
    rw [List.map_map]
    exact rows.ids
  few := by
    rw [List.length_map]
    exact rows.few

variable (env : UploadEnv)

/-- The error where a condition doesn't hold. -/
def ensure (holds : Bool) (error : UploadError) : Except UploadError Unit := if holds then .ok () else .error error

/-- An access that can fail. -/
def access (step : UploadStep) : Except UploadError Unit := ensure (!env.fails step) (.failed step)

/-- Rust `Option::ok_or`. -/
def okOr {A : Type} (value : Option A) (error : UploadError) : Except UploadError A :=
  match value with
  | some a => .ok a
  | none => .error error

/-- Rust `refresh_gen_patches`, where the output is the uploaded file; the transaction that writes the patches is rolled
back as a whole. -/
def refreshGenPatches (file : List UInt8) (rows : RoomRows I) : Except UploadError (RoomRows I) := do
  access env .readInserted
  ensure rows.generation.isSome (.message "Couldn't find generation for room")
  access env .readYamls
  access env .generationInfo
  access env .openOutput
  let fileNames ← okOr (env.fileNames file) (.failed .openArchive)
  let association ←
    getYamlsPatchesAssociation re tables overflowChecks fileNames (rows.yamls.map (·.toYamlWithoutContent))
  access env .associate
  return associatePatchFiles association rows

def zipMagic : List UInt8 := [0x50, 0x4B, 0x03, 0x04]

/-- What `gen_room_manual_upload` does before it inserts the row, and the insertion: the error, or the file. -/
def admitUpload (request : ManualUploadRequest) (rows : RoomRows I) : Except UploadError (List UInt8) := do
  access env .connection
  access env .readRoom
  ensure (request.session.isAdmin || request.session.userId == rows.authorId)
    (.message "Cannot upload generation for a room that isn't yours")
  access env .readGeneration
  ensure rows.generation.isNone (.message "Cannot upload a generation while one already exists")
  let file ← okOr request.file (.message "No temporary file path available")
  access env .openUpload
  ensure (decide (4 ≤ file.length)) (.failed .readMagic)
  ensure (file.take 4 == zipMagic) (.message "Uploaded file must be a zip")
  access env .createDir
  access env .copyUpload
  access env .writeLog
  access env .insertGeneration
  return file

/-- Rust `insert_generation_for_room_as_done`. -/
def insertGenerationAsDone (jobId : ℕ) (rows : RoomRows I) : RoomRows I := { rows with generation := some ⟨jobId, .done⟩ }

/-- Rust `gen_room_manual_upload`: the error if there is one, and the rows. -/
def genRoomManualUpload (request : ManualUploadRequest) (rows : RoomRows I) : Option UploadError × RoomRows I :=
  match admitUpload env request rows with
  | .error error => (some error, rows)
  | .ok file =>
    let inserted := insertGenerationAsDone request.jobId rows
    match refreshGenPatches re tables overflowChecks env file inserted with
    | .error error => (some error, inserted)
    | .ok refreshed => (none, refreshed)

end

/-! ## Patches by slot -/

/-- A name matches the pattern and carries the number of a slot. -/
def PatchRe.carries (re : PatchRe) (n : ℕ) (name : String) : Bool :=
  (re.captures name).any fun digits => slotValue digits = n

/-- The number in a name, if it has one, is a `usize`, and not zero where overflows are checked. -/
def PatchRe.Fits (re : PatchRe) (overflowChecks : Bool) (name : String) : Prop :=
  ∀ digits ∈ re.captures name, slotValue digits < 2 ^ 64 ∧ (overflowChecks = true → slotValue digits ≠ 0)

lemma predUsize_zero : predUsize 0 = 2 ^ 64 - 1 := by decide

lemma predUsize_succ {n : ℕ} (small : n + 1 < 2 ^ 64) : predUsize (n + 1) = n := by
  rw [predUsize]
  omega

section
variable {re : PatchRe} {overflowChecks : Bool} {I : Type} [DecidableEq I] {slots : List (String × I)}
  {association association' : I → Option String} {fileName : String}

lemma parseUsize_captured {digits : List Char} (is : re.captures fileName = some digits) :
    parseUsize digits = if slotValue digits < 2 ^ 64 then some (slotValue digits) else none := by
  obtain ⟨some, all⟩ := re.digits is
  have digit : digits.all Char.isDigit = true := List.all_eq_true.mpr all
  rw [parseUsize, if_neg]
  exact not_or.mpr ⟨some, not_not.mpr digit⟩

/-- Where the number of a name fits, the YAML of this slot gets the name. -/
lemma associateName_ok (once : (slots.map Prod.snd).Nodup) (few : slots.length < 2 ^ 64)
    (fits : re.Fits overflowChecks fileName) (association : I → Option String) :
    ∃ association', associateName re overflowChecks slots association fileName = .ok association' ∧
      ∀ (k : ℕ) slot, slots[k]? = some slot →
        association' slot.2 = if re.carries (k + 1) fileName then some fileName else association slot.2 := by
  rw [associateName]
  cases is : re.captures fileName with
  | none =>
    refine ⟨association, rfl, fun k slot _ => ?_⟩
    simp [PatchRe.carries, is]
  | some digits =>
    obtain ⟨small, positive⟩ := fits digits is
    have carries (k : ℕ) : re.carries (k + 1) fileName = decide (slotValue digits = k + 1) := by
      rw [PatchRe.carries, is, Option.any_some]
    simp only [parseUsize_captured is, if_pos small, carries, decide_eq_true_eq]
    cases value : slotValue digits with
    | zero =>
      have unchecked : ¬ (0 = 0 ∧ overflowChecks = true) := fun checked => positive checked.2 value
      have none : slots[predUsize 0]? = none := by
        rw [List.getElem?_eq_none_iff, predUsize_zero]
        omega
      rw [if_neg unchecked, none]
      refine ⟨association, rfl, fun k slot _ => ?_⟩
      rw [if_neg (Nat.succ_ne_zero k).symm]
    | succ n =>
      rw [value] at small
      rw [if_neg fun checked => Nat.succ_ne_zero n checked.1, predUsize_succ small]
      cases place : slots[n]? with
      | none =>
        refine ⟨association, rfl, fun k slot here => ?_⟩
        rw [if_neg]
        rintro same
        rw [← Nat.succ.inj same, place] at here
        cases here
      | some there =>
        refine ⟨_, rfl, fun k slot here => ?_⟩
        by_cases same : n = k
        · rw [same, here, Option.some.injEq] at place
          rw [← place, Function.update_self, if_pos (congrArg (· + 1) same)]
        · -- no YAML has two slots
          have other : slot.2 ≠ there.2 := by
            intro eq
            have bound := (List.getElem?_eq_some_iff.mp place).1
            have inj := List.getElem?_inj (by rwa [List.length_map]) once (i := n) (j := k)
            rw [List.getElem?_map, List.getElem?_map, place, here] at inj
            exact same (inj.mp (congrArg some eq.symm))
          rw [Function.update_of_ne other, if_neg fun eq => same (Nat.succ.inj eq)]

lemma fits_of_associateName (ok : associateName re overflowChecks slots association fileName = .ok association') :
    re.Fits overflowChecks fileName := by
  intro digits is
  rw [associateName, is] at ok
  simp only [parseUsize_captured is] at ok
  by_cases small : slotValue digits < 2 ^ 64
  · refine ⟨small, fun checked zero => ?_⟩
    rw [if_pos small] at ok
    simp only [zero, checked, and_self, if_true] at ok
    cases ok
  · rw [if_neg small] at ok
    cases ok

/-- Where all numbers fit, each YAML gets the last name that carries the number of its slot. -/
lemma associate_ok (once : (slots.map Prod.snd).Nodup) (few : slots.length < 2 ^ 64) {fileNames : List String}
    (fits : ∀ name ∈ fileNames, re.Fits overflowChecks name) (association : I → Option String) :
    ∃ association', fileNames.foldlM (associateName re overflowChecks slots) association = .ok association' ∧
      ∀ (k : ℕ) slot, slots[k]? = some slot →
        association' slot.2 = (fileNames.filter (re.carries (k + 1))).getLast?.or (association slot.2) := by
  induction fileNames generalizing association with
  | nil => exact ⟨association, rfl, fun _ _ _ => rfl⟩
  | cons name fileNames ih =>
    obtain ⟨next, turn, here⟩ := associateName_ok once few (fits name List.mem_cons_self) association
    obtain ⟨last, run, there⟩ := ih (fun other mem => fits other (List.mem_cons_of_mem name mem)) next
    refine ⟨last, ?_, fun k slot place => ?_⟩
    · rw [List.foldlM_cons, turn]
      exact run
    · rw [there k slot place, here k slot place, List.filter_cons]
      split
      · rw [List.getLast?_cons]
        cases (fileNames.filter (re.carries (k + 1))).getLast? <;> rfl
      · rfl

lemma fits_of_associate {fileNames : List String}
    (ok : fileNames.foldlM (associateName re overflowChecks slots) association = .ok association') :
    ∀ name ∈ fileNames, re.Fits overflowChecks name := by
  induction fileNames generalizing association with
  | nil => exact fun _ mem => absurd mem List.not_mem_nil
  | cons name fileNames ih =>
    rw [List.foldlM_cons] at ok
    cases turn : associateName re overflowChecks slots association name with
    | error error =>
      rw [turn] at ok
      cases ok
    | ok next =>
      rw [turn] at ok
      intro other mem
      rcases List.mem_cons.mp mem with rfl | mem
      · exact fits_of_associateName turn
      · exact ih ok other mem

end

section
variable (re : PatchRe) (tables : CaseTables) (overflowChecks : Bool) {I : Type} [DecidableEq I]

/-- The YAMLs are matched by slot: each gets one of the names that carry the number of its slot, if there is one. -/
def AssociatesBySlot (fileNames : List String) (roomYamls : List (YamlWithoutContent I)) : Prop :=
  ∃ association slots, getYamlsPatchesAssociation re tables overflowChecks fileNames roomYamls = .ok association ∧
    Numbering.getSlots tables roomYamls.length roomYamls = some slots ∧
    ∀ (k : ℕ) slot, slots[k]? = some slot →
      ((association slot.2).isSome ↔ ∃ name ∈ fileNames, re.carries (k + 1) name = true) ∧
        ∀ name ∈ association slot.2, name ∈ fileNames ∧ re.carries (k + 1) name = true

variable {re tables overflowChecks}

lemma associatesBySlot_iff {fileNames : List String} {roomYamls : List (YamlWithoutContent I)}
    (ids : (roomYamls.map (·.id)).Nodup) (few : roomYamls.length < 2 ^ 64) :
    AssociatesBySlot re tables overflowChecks fileNames roomYamls ↔ ∀ name ∈ fileNames, re.Fits overflowChecks name := by
  obtain ⟨slots, ends, numbering, -⟩ := Numbering.getSlots_numbers tables roomYamls ids
  have resolved := ends roomYamls.length le_rfl
  have perm : (slots.map Prod.snd).Perm (roomYamls.map (·.id)) :=
    (List.perm_ext_iff_of_nodup numbering.once ids).mpr numbering.ids
  have length := perm.length_eq
  rw [List.length_map, List.length_map] at length
  constructor
  · rintro ⟨association, _, ok, -⟩
    rw [getYamlsPatchesAssociation, resolved] at ok
    exact fits_of_associate ok
  · intro fits
    obtain ⟨association, ok, last⟩ := associate_ok numbering.once (length ▸ few) fits fun _ => none
    refine ⟨association, slots, ?_, resolved, fun k slot place => ?_⟩
    · rw [getYamlsPatchesAssociation, resolved]
      exact ok
    · rw [last k slot place, Option.or_none]
      constructor
      · rw [List.getLast?_isSome, ne_eq, List.filter_eq_nil_iff]
        push Not
        rfl
      · intro name is
        exact List.mem_filter.mp (List.mem_of_getLast? is)

end

/-! ## Uploads that are refused -/

section
variable (re : PatchRe) (tables : CaseTables) (overflowChecks : Bool) {I : Type} [DecidableEq I] (env : UploadEnv)

lemma bind_ok {A B : Type} {x : Except UploadError A} {f : A → Except UploadError B} {b : B} :
    x >>= f = .ok b ↔ ∃ a, x = .ok a ∧ f a = .ok b := by
  cases x with
  | error error => simp [Bind.bind, Except.bind]
  | ok a => simp [Bind.bind, Except.bind]

lemma ensure_ok {holds : Bool} {error : UploadError} {u : Unit} : ensure holds error = .ok u ↔ holds = true := by
  cases holds with
  | false => simp [ensure]
  | true => simp [ensure]

lemma access_ok {env : UploadEnv} {step : UploadStep} {u : Unit} : access env step = .ok u ↔ env.fails step = false := by
  rw [access, ensure_ok, Bool.not_eq_true']

lemma okOr_ok {A : Type} {value : Option A} {error : UploadError} {a : A} : okOr value error = .ok a ↔ value = some a := by
  cases value with
  | none => simp [okOr]
  | some b => simp [okOr]

/-- The accesses before the row is inserted. -/
def admitSteps : List UploadStep :=
  [.connection, .readRoom, .readGeneration, .openUpload, .createDir, .copyUpload, .writeLog, .insertGeneration]

/-- An upload is let in: the room is the user's and has no generation, and the file looks like an archive. -/
structure LetIn (request : ManualUploadRequest) (rows : RoomRows I) (file : List UInt8) : Prop where
  works : ∀ step ∈ admitSteps, env.fails step = false
  mine : (request.session.isAdmin || request.session.userId == rows.authorId) = true
  free : rows.generation = none
  stored : request.file = some file
  magic : file.take 4 = zipMagic

/-- The accesses after the row is inserted. -/
def refreshSteps : List UploadStep := [.readInserted, .readYamls, .generationInfo, .openOutput, .associate]

/-- A file is an archive in which all numbers fit, and all accesses after the row is inserted work. -/
structure Finishes (file : List UInt8) : Prop where
  works : ∀ step ∈ refreshSteps, env.fails step = false
  opens : ∃ fileNames, env.fileNames file = some fileNames ∧ ∀ name ∈ fileNames, re.Fits overflowChecks name

/-- An upload that is answered with an error leaves the generation of the room and the patches as they were. -/
def LeavesRoom (request : ManualUploadRequest) (rows : RoomRows I) : Prop :=
  ∀ error rows', genRoomManualUpload re tables overflowChecks env request rows = (some error, rows') →
    rows'.generation = rows.generation ∧ rows'.yamls = rows.yamls

variable {re tables overflowChecks env} {request : ManualUploadRequest} {rows : RoomRows I} {file : List UInt8}

omit [DecidableEq I] in
lemma admitUpload_ok : admitUpload env request rows = .ok file ↔ LetIn env request rows file := by
  have long (file : List UInt8) (magic : file.take 4 = zipMagic) : 4 ≤ file.length := by
    have length := congrArg List.length magic
    rw [List.length_take] at length
    have four : zipMagic.length = 4 := rfl
    omega
  simp only [admitUpload, bind_ok, access_ok, ensure_ok, okOr_ok, exists_const]
  constructor
  · rintro ⟨connection, room, mine, generation, free, file', stored, opened, -, magic, dir, copy, log, insert, same⟩
    cases same
    refine ⟨?_, mine, Option.isNone_iff_eq_none.mp free, stored, beq_iff_eq.mp magic⟩
    simp only [admitSteps, List.forall_mem_cons]
    exact ⟨connection, room, generation, opened, dir, copy, log, insert, fun _ mem => absurd mem List.not_mem_nil⟩
  · rintro ⟨works, mine, free, stored, magic⟩
    simp only [admitSteps, List.forall_mem_cons] at works
    obtain ⟨connection, room, generation, opened, dir, copy, log, insert, -⟩ := works
    exact ⟨connection, room, mine, generation, Option.isNone_iff_eq_none.mpr free, file, stored, opened,
      decide_eq_true (long file magic), beq_iff_eq.mpr magic, dir, copy, log, insert, rfl⟩

variable (tables rows) in
lemma refreshGenPatches_ok (jobId : ℕ) :
    (∃ rows', refreshGenPatches re tables overflowChecks env file (insertGenerationAsDone jobId rows) = .ok rows') ↔
      Finishes re overflowChecks env file := by
  have ids : ((rows.yamls.map (·.toYamlWithoutContent)).map (·.id)).Nodup := by
    rw [List.map_map]
    exact rows.ids
  have few : (rows.yamls.map (·.toYamlWithoutContent)).length < 2 ^ 64 := by
    rw [List.length_map]
    exact rows.few
  simp only [refreshGenPatches, bind_ok, access_ok, ensure_ok, okOr_ok, exists_const]
  constructor
  · rintro ⟨rows', readInserted, -, readYamls, info, output, fileNames, opens, association, associated, associate, -⟩
    refine ⟨?_, fileNames, opens, fits_of_associate associated⟩
    simp only [refreshSteps, List.forall_mem_cons]
    exact ⟨readInserted, readYamls, info, output, associate, fun _ mem => absurd mem List.not_mem_nil⟩
  · rintro ⟨works, fileNames, opens, fits⟩
    simp only [refreshSteps, List.forall_mem_cons] at works
    obtain ⟨readInserted, readYamls, info, output, associate, -⟩ := works
    obtain ⟨association, -, associated, -⟩ := (associatesBySlot_iff ids few).mpr fits
    exact ⟨_, readInserted, rfl, readYamls, info, output, fileNames, opens, association, associated, associate, rfl⟩

/-- An upload leaves the room as it was where it is refused before the row is inserted, or not at all. -/
lemma leavesRoom_iff : LeavesRoom re tables overflowChecks env request rows ↔
    ∀ file, LetIn env request rows file → Finishes re overflowChecks env file := by
  constructor
  · intro leaves file letIn
    have admitted := admitUpload_ok.mpr letIn
    apply (refreshGenPatches_ok tables rows request.jobId).mp
    cases refresh : refreshGenPatches re tables overflowChecks env file (insertGenerationAsDone request.jobId rows) with
    | ok refreshed => exact ⟨refreshed, rfl⟩
    | error error =>
      have answer : genRoomManualUpload re tables overflowChecks env request rows =
          (some error, insertGenerationAsDone request.jobId rows) := by
        simp only [genRoomManualUpload, admitted, refresh]
      have same := (leaves error _ answer).1
      rw [letIn.free] at same
      cases same
  · intro finishes error rows' is
    rw [genRoomManualUpload] at is
    split at is
    case h_1 refused =>
      cases is
      exact ⟨rfl, rfl⟩
    case h_2 file admitted =>
      obtain ⟨refreshed, refresh⟩ :=
        (refreshGenPatches_ok tables rows request.jobId).mpr (finishes file (admitUpload_ok.mp admitted))
      simp only [refresh] at is
      cases is

variable (re tables overflowChecks env request rows)

/-- The room is left as it was by an upload that is answered with an error where the file is an archive whose numbers fit
and all later accesses work, or the upload isn't let in; patches are matched by slot where the numbers fit. -/
theorem manualUpload_iff (fileNames : List String) :
    (LeavesRoom re tables overflowChecks env request rows ↔
        ∀ file, LetIn env request rows file → Finishes re overflowChecks env file) ∧
      (AssociatesBySlot re tables overflowChecks fileNames (rows.yamls.map (·.toYamlWithoutContent)) ↔
        ∀ name ∈ fileNames, re.Fits overflowChecks name) := by
  refine ⟨leavesRoom_iff, associatesBySlot_iff ?_ ?_⟩
  · rw [List.map_map]
    exact rows.ids
  · rw [List.length_map]
    exact rows.few

end

/-! ## A pattern -/

def isSeparator (c : Char) : Bool := c == '_' || c == '-'

/-- What `([0-9]+)[_-](.*)\..*` captures first at the start of a text; a dot matches all but a line break. -/
def slotDigits (text : List Char) : Option (List Char) :=
  let digits := text.takeWhile Char.isDigit
  match digits, text.dropWhile Char.isDigit with
  | _ :: _, separator :: rest =>
    if isSeparator separator ∧ (rest.takeWhile (· ≠ '\n')).contains '.' then some digits else none
  | _, _ => none

/-- What the pattern captures first at the start of a text. -/
def capturesAt : List Char → Option (List Char)
  | 'A' :: 'P' :: separator :: rest =>
    match rest.takeWhile Char.isDigit, rest.dropWhile Char.isDigit with
    | _ :: _, separator' :: 'P' :: rest =>
      if isSeparator separator ∧ isSeparator separator' then slotDigits rest else none
    | _, _ => none
  | _ => none

/-- The first match in a text. -/
def capturesIn : List Char → Option (List Char)
  | [] => none
  | c :: rest => (capturesAt (c :: rest)).or (capturesIn rest)

lemma slotDigits_digits {text digits : List Char} (is : slotDigits text = some digits) :
    digits ≠ [] ∧ ∀ c ∈ digits, c.isDigit = true := by
  simp only [slotDigits] at is
  split at is
  case h_1 first more _ _ split _ =>
    split_ifs at is
    cases is
    refine ⟨?_, fun c mem => List.mem_takeWhile_imp mem⟩
    rw [split]
    exact List.cons_ne_nil _ _
  case h_2 => cases is

lemma capturesAt_digits {text digits : List Char} (is : capturesAt text = some digits) :
    digits ≠ [] ∧ ∀ c ∈ digits, c.isDigit = true := by
  rw [capturesAt.eq_def] at is
  split at is
  case h_1 =>
    split at is
    case h_1 =>
      split_ifs at is
      exact slotDigits_digits is
    case h_2 => cases is
  case h_2 => cases is

lemma capturesIn_digits {text digits : List Char} (is : capturesIn text = some digits) :
    digits ≠ [] ∧ ∀ c ∈ digits, c.isDigit = true := by
  induction text with
  | nil => cases is
  | cons c text ih =>
    rw [capturesIn] at is
    rcases Option.or_eq_some_iff.mp is with here | ⟨-, later⟩
    · exact capturesAt_digits here
    · exact ih later

def patchRe : PatchRe where
  captures name := capturesIn name.toList
  digits := capturesIn_digits

def untouchedRoom : RoomRows ℕ where
  authorId := 1
  generation := none
  yamls := []
  ids := List.nodup_nil
  few := by decide

def workingEnv : UploadEnv where
  fails _ := false
  fileNames _ := none

/-- Four bytes that look like an archive are let in, and the row stays; a number of twenty digits stops the matching. -/
theorem unreadable_upload_stays :
    ¬ LeavesRoom patchRe Lowercase.asciiTables false workingEnv ⟨⟨false, 1⟩, some zipMagic, 7⟩ untouchedRoom ∧
      ¬ AssociatesBySlot patchRe Lowercase.asciiTables false ["AP_1_P99999999999999999999_a.apz"]
        ([] : List (YamlWithoutContent ℕ)) := by
  constructor
  · intro leaves
    have same := (leaves (.failed .openArchive) _ rfl).1
    cases same
  · intro associates
    have ids : (([] : List (YamlWithoutContent ℕ)).map (·.id)).Nodup := List.nodup_nil
    have few : ([] : List (YamlWithoutContent ℕ)).length < 2 ^ 64 := by decide
    have fits := (associatesBySlot_iff ids few).mp associates
    have small := (fits _ (List.mem_singleton_self _) (List.replicate 20 '9') (by decide)).1
    exact absurd small (by decide)

end ArchipelagoXL.Lobby
