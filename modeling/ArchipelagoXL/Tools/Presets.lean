import Mathlib.Data.List.Range
import Mathlib.Data.List.Sort
import ArchipelagoXL.Lib.Interleave
import ArchipelagoXL.Tools.Rules
import ArchipelagoXL.Tools.Teams

/-!
# Presets

A preset has the rules that a team reviews YAMLs with (`review/api/presets.rs`). Rules are written one by one, or
imported from what was exported of a preset, and each is read and validated first. The evaluation leaves out what it
can't read.

Requests run at once, with one access to the database after the other. Roles, teams and presets may change in any way
meanwhile. `rules_sound` says what the rules of any preset are at any time, and `import_export` that what was exported
can be imported and means the same.

The JSON values are a parameter, with how a rule is read off one and what a column of the database makes of it.
-/

namespace ArchipelagoXL.Tools.Presets

open Interleave Teams

/-- The values of a JSON library. -/
structure Json (J : Type) where
  /-- Rust `serde_json::from_value::<Rule>`. -/
  fromValue : J → Except String Rule
  /-- A value as it comes back from a `JSONB` column, if the column can hold it. -/
  jsonb : J → Option J
  fromValue_jsonb : ∀ {value stored rule}, jsonb value = some stored → fromValue value = .ok rule →
    fromValue stored = .ok rule
  jsonb_jsonb : ∀ {value stored}, jsonb value = some stored → jsonb stored = some stored

structure Config (J : Type) where
  json : Json J
  re : RegexLib

/-! ## The tables -/

/-- Rust `LoggedInSession`. -/
structure Caller extends Session where
  username : Option String

def Caller.name (caller : Caller) : String := caller.username.getD "Unknown"

structure ReviewPreset where
  id : ℤ
  teamId : Option ℤ

structure PresetRule (J : Type) where
  id : ℤ
  presetId : ℤ
  rule : J
  position : ℤ
  lastEditedBy : Option ℤ
  lastEditedAt : Option ℤ
  lastEditedByName : Option String

structure World (J : Type) where
  teams : Tables
  presets : List ReviewPreset
  rules : List (PresetRule J)
  nextRule : ℤ

inductive Failure where
  | forbidden (msg : String)
  | failed (msg : String)
  /-- The database refuses. -/
  | database
deriving DecidableEq

/-- What the database decides at an access: how many ids refused rows have used up, and the order in which it goes
through the rules. -/
structure Tick where
  skipped : ℕ
  scan : List ℕ

namespace World

variable {J : Type}

/-- Rust `get_user_role_for_preset`; a user has one row in the team of the preset at most. -/
def getUserRoleForPreset (w : World J) (userId presetId : ℤ) : Option Role :=
  (w.presets.find? fun p => p.id = presetId).bind fun preset =>
    preset.teamId.bind fun team => w.teams.getUserRoleForTeam userId team

/-- Whatever becomes of the teams and the presets, the rules of a preset that goes do so too. -/
def others (w : World J) (teams : Tables) (presets : List ReviewPreset) : World J :=
  { w with
    teams := teams
    presets := presets
    rules := w.rules.filter fun rule => presets.any fun p => p.id = rule.presetId }

def createRule (w : World J) (tick : Tick) (caller : Caller) (now : ℤ) (presetId : ℤ) (rule : J) (position : ℤ) :
    Except Failure (PresetRule J × World J) :=
  if ∃ preset ∈ w.presets, preset.id = presetId then
    let row := ⟨w.nextRule + tick.skipped, presetId, rule, position, some caller.userId, some now, some caller.name⟩
    .ok (row, { w with rules := w.rules ++ [row], nextRule := row.id + 1 })
  else .error .database

/-- A row as an update leaves it. -/
def updated (caller : Caller) (now : ℤ) (rule : Option J) (position : Option ℤ) (row : PresetRule J) : PresetRule J :=
  { row with
    rule := rule.getD row.rule
    position := position.getD row.position
    lastEditedBy := some caller.userId
    lastEditedAt := some now
    lastEditedByName := some caller.name }

def updateRule (w : World J) (caller : Caller) (now : ℤ) (presetId ruleId : ℤ) (rule : Option J) (position : Option ℤ) :
    Except Failure (PresetRule J × World J) :=
  match w.rules.find? fun row => row.id = ruleId && row.presetId = presetId with
  | none => .error (.failed "Record not found")
  | some row =>
    .ok (updated caller now rule position row,
      { w with
        rules := w.rules.map fun row =>
          if row.id = ruleId ∧ row.presetId = presetId then updated caller now rule position row else row })

def deleteRule (w : World J) (presetId ruleId : ℤ) : World J :=
  { w with rules := w.rules.filter fun row => !(row.id = ruleId && row.presetId = presetId) }

/-- The rules of a preset as they stand in the table. -/
def rulesOf (w : World J) (presetId : ℤ) : List (PresetRule J) := w.rules.filter fun row => row.presetId = presetId

def listRulesForPreset (w : World J) (tick : Tick) (presetId : ℤ) : List (PresetRule J) :=
  ((tick.scan.filterMap fun i => w.rules[i]?).filter fun row => row.presetId = presetId).insertionSort
    fun a b => a.position ≤ b.position

end World

/-! ## The requests -/

/-- Rust `ImportPresetRuleEntry` and `NewPresetRuleRequest`. -/
structure Entry (J : Type) where
  rule : J
  position : ℤ
deriving DecidableEq

inductive Request (J : Type) where
  /-- The export has the same rules. -/
  | listPresetRules (presetId : ℤ)
  | createPresetRule (presetId : ℤ) (body : Entry J)
  | updatePresetRule (presetId ruleId : ℤ) (rule : Option J) (position : Option ℤ)
  | deletePresetRule (presetId ruleId : ℤ)
  | importPreset (id : ℤ) (entries : List (Entry J))

inductive Answer (J : Type) where
  | rule (rule : PresetRule J)
  | rules (rules : List (PresetRule J))
  | done

inductive Pc (J : Type) where
  | idle
  | asked (caller : Caller) (request : Request J)
  /-- Past the checks, with the time that was read then. An import has the rows that it has created so far. -/
  | serving (caller : Caller) (now : ℤ) (request : Request J) (created : List (PresetRule J))
  | answered (answer : Except Failure (Answer J))

inductive Input (J : Type) where
  | ask (caller : Caller) (request : Request J)
  | check (now : ℤ)
  | go (tick : Tick)
  /-- The database fails. -/
  | fail
  /-- Other requests. -/
  | others (teams : Tables) (presets : List ReviewPreset)

section
variable {J : Type}

def requirePresetRole (w : World J) (caller : Caller) (presetId : ℤ) (minimum : Role) : Except Failure Unit :=
  if caller.isSuperAdmin then .ok ()
  else
    match w.getUserRoleForPreset caller.userId presetId with
    | some role => if minimum ≤ role then .ok () else .error (.forbidden "Forbidden")
    | none => .error (.forbidden "Forbidden")

namespace Config

def checkRule (config : Config J) (rule : J) : Except Failure Unit :=
  match config.json.fromValue rule with
  | .error e => .error (.failed ("Invalid rule: " ++ e))
  | .ok parsed =>
    match parsed.validate config.re with
    | .error e => .error (.failed e)
    | .ok () => .ok ()

def checkRules (config : Config J) : List J → Except Failure Unit
  | [] => .ok ()
  | rule :: rules => do
    config.checkRule rule
    config.checkRules rules

/-- What a request is checked for before it touches a table. -/
def check (config : Config J) (w : World J) (caller : Caller) : Request J → Except Failure Unit
  | .listPresetRules presetId => requirePresetRole w caller presetId .viewer
  | .createPresetRule presetId body => do
    requirePresetRole w caller presetId .ruleEditor
    config.checkRule body.rule
  | .updatePresetRule presetId _ rule _ => do
    requirePresetRole w caller presetId .ruleEditor
    config.checkRules rule.toList
  | .deletePresetRule presetId _ => requirePresetRole w caller presetId .ruleEditor
  | .importPreset presetId entries => do
    requirePresetRole w caller presetId .ruleEditor
    config.checkRules (entries.map Entry.rule)

/-- A value on its way to a column. -/
def column (config : Config J) (value : J) : Except Failure J :=
  match config.json.jsonb value with
  | some stored => .ok stored
  | none => .error .database

/-- What may be missing, on its way to a column. -/
def columnIf (config : Config J) : Option J → Except Failure (Option J)
  | some value => do
    let stored ← config.column value
    return some stored
  | none => .ok none

/-- One access to the database for a request that is past its checks. -/
def access (config : Config J) (w : World J) (tick : Tick) (caller : Caller) (now : ℤ)
    (created : List (PresetRule J)) : Request J → Except Failure (World J × Pc J)
  | .listPresetRules presetId => .ok (w, .answered (.ok (.rules (w.listRulesForPreset tick presetId))))
  | .createPresetRule presetId body => do
    let rule ← config.column body.rule
    let (row, w) ← w.createRule tick caller now presetId rule body.position
    return (w, .answered (.ok (.rule row)))
  | .updatePresetRule presetId ruleId rule position => do
    let rule ← config.columnIf rule
    let (row, w) ← w.updateRule caller now presetId ruleId rule position
    return (w, .answered (.ok (.rule row)))
  | .deletePresetRule presetId ruleId => .ok (w.deleteRule presetId ruleId, .answered (.ok .done))
  | .importPreset _ [] => .ok (w, .answered (.ok (.rules created)))
  | .importPreset presetId (entry :: entries) => do
    let rule ← config.column entry.rule
    let (row, w) ← w.createRule tick caller now presetId rule entry.position
    return (w, .serving caller now (.importPreset presetId entries) (created ++ [row]))

/-- The requests of the server, each a thread, with one access to the database a step. -/
def step (config : Config J) : Machine (World J) (Pc J) (Input J) := fun _ w pc input =>
  match pc, input with
  | .idle, .ask caller request => some (w, .asked caller request)
  | .idle, .others teams presets => some (w.others teams presets, .idle)
  | .asked caller request, .check now =>
    match config.check w caller request with
    | .ok () => some (w, .serving caller now request [])
    | .error e => some (w, .answered (.error e))
  | .serving caller now request created, .go tick =>
    if tick.scan.Perm (List.range w.rules.length) then
      match config.access w tick caller now created request with
      | .ok after => some after
      | .error e => some (w, .answered (.error e))
    else none
  | .asked _ _, .fail => some (w, .answered (.error .database))
  | .serving _ _ _ _, .fail => some (w, .answered (.error .database))
  | _, _ => none

/-- The rules that the evaluation takes of what is listed. -/
def customRules (config : Config J) (rows : List (PresetRule J)) : List Rule :=
  rows.filterMap fun row => (config.json.fromValue row.rule).toOption

end Config

/-- No rule is there yet. -/
def start (teams : Tables) (presets : List ReviewPreset) : Conf (World J) (Pc J) where
  shared := ⟨teams, presets, [], 1⟩
  pc := fun _ => .idle

/-- What the import reads of what was exported. -/
def PresetRule.entry (row : PresetRule J) : Entry J := ⟨row.rule, row.position⟩

end

/-! ## What a step does -/

section
variable {J : Type} {config : Config J} {w w' : World J} {caller : Caller} {presetId now : ℤ} {tick : Tick}

/-- The caller may write the rules of a preset. -/
def MayEdit (caller : Caller) (presetId : ℤ) (w : World J) : Prop :=
  caller.isSuperAdmin = true ∨
    ∃ role, w.getUserRoleForPreset caller.userId presetId = some role ∧ Role.ruleEditor ≤ role

/-- A rule that can be read and passes its validation. -/
def Config.Valid (config : Config J) (rule : J) : Prop :=
  ∃ parsed, config.json.fromValue rule = .ok parsed ∧ parsed.validate config.re = .ok ()

/-- Who may not write the rules is refused. -/
lemma requirePresetRole_cases (w : World J) (caller : Caller) (presetId : ℤ) :
    (requirePresetRole w caller presetId .ruleEditor = .ok () ∧ MayEdit caller presetId w) ∨
      requirePresetRole w caller presetId .ruleEditor = .error (.forbidden "Forbidden") := by
  unfold requirePresetRole MayEdit
  split
  case isTrue super => exact .inl ⟨rfl, .inl super⟩
  case isFalse =>
    cases has : w.getUserRoleForPreset caller.userId presetId with
    | none => exact .inr rfl
    | some role =>
      by_cases enough : Role.ruleEditor ≤ role
      · exact .inl ⟨if_pos enough, .inr ⟨role, rfl, enough⟩⟩
      · exact .inr (if_neg enough)

lemma requirePresetRole_ok (ok : requirePresetRole w caller presetId .ruleEditor = .ok ()) :
    MayEdit caller presetId w := by
  rcases requirePresetRole_cases w caller presetId with ⟨_, may⟩ | refused
  · exact may
  · rw [refused] at ok
    cases ok

lemma Config.checkRule_ok_iff {rule : J} : config.checkRule rule = .ok () ↔ config.Valid rule := by
  unfold checkRule Valid
  cases config.json.fromValue rule with
  | error e => simp
  | ok parsed => cases valid : parsed.validate config.re <;> simp [valid]

lemma Config.checkRules_ok_iff {rules : List J} :
    config.checkRules rules = .ok () ↔ ∀ rule ∈ rules, config.Valid rule := by
  induction rules with
  | nil => simp [checkRules]
  | cons rule rules ih =>
    rw [List.forall_mem_cons, ← ih, ← checkRule_ok_iff, checkRules]
    cases config.checkRule rule with
    | error e => exact ⟨fun no => (by cases no), fun both => both.1⟩
    | ok u => exact ⟨fun ok => ⟨rfl, ok⟩, fun both => both.2⟩

lemma Config.column_ok {value stored : J} (ok : config.column value = .ok stored) :
    config.json.jsonb value = some stored := by
  unfold column at ok
  split at ok
  next held =>
    cases ok
    exact held
  · cases ok

/-- What a column holds of a valid rule is valid. -/
lemma Config.Valid.stored {rule stored : J} (valid : config.Valid rule) (held : config.json.jsonb rule = some stored) :
    config.Valid stored := by
  obtain ⟨parsed, read, passes⟩ := valid
  exact ⟨parsed, config.json.fromValue_jsonb held read, passes⟩

lemma filterMap_range {A : Type} (l : List A) : ((List.range l.length).filterMap fun i => l[i]?) = l := by
  induction l with
  | nil => rfl
  | cons a l ih =>
    rw [List.length_cons, List.range_succ_eq_map, List.filterMap_cons, List.getElem?_cons_zero, List.filterMap_map]
    exact congrArg (a :: ·) ih

namespace World

lemma createRule_ok {rule : J} {position : ℤ} {row : PresetRule J}
    (ok : w.createRule tick caller now presetId rule position = .ok (row, w')) :
    w'.rules = w.rules ++ [row] ∧ w'.presets = w.presets ∧
      row = ⟨row.id, presetId, rule, position, some caller.userId, some now, some caller.name⟩ := by
  unfold createRule at ok
  split at ok
  · cases ok
    exact ⟨rfl, rfl, rfl⟩
  · cases ok

/-- A row can be written for a preset that exists. -/
lemma createRule_isOk (tick : Tick) (caller : Caller) (now : ℤ) (rule : J) (position : ℤ)
    (there : ∃ preset ∈ w.presets, preset.id = presetId) :
    ∃ row w', w.createRule tick caller now presetId rule position = .ok (row, w') := by
  unfold createRule
  exact ⟨_, _, if_pos there⟩

lemma updateRule_ok {ruleId : ℤ} {rule : Option J} {position : Option ℤ} {row : PresetRule J}
    (ok : w.updateRule caller now presetId ruleId rule position = .ok (row, w')) :
    w'.rules = w.rules.map fun row =>
      if row.id = ruleId ∧ row.presetId = presetId then updated caller now rule position row else row := by
  unfold updateRule at ok
  split at ok
  · cases ok
  · cases ok
    rfl

lemma mem_of_listed {row : PresetRule J} (mem : row ∈ w.listRulesForPreset tick presetId) : row ∈ w.rules := by
  rw [listRulesForPreset, List.mem_insertionSort] at mem
  obtain ⟨i, _, here⟩ := List.mem_filterMap.mp (List.mem_filter.mp mem).1
  exact List.mem_of_getElem? here

/-- A listing has the rules of the preset, each once. -/
lemma listRulesForPreset_perm (presetId : ℤ) (whole : tick.scan.Perm (List.range w.rules.length)) :
    (w.listRulesForPreset tick presetId).Perm (w.rulesOf presetId) := by
  apply (List.perm_insertionSort _ _).trans
  apply List.Perm.filter
  have rows := whole.filterMap fun i => w.rules[i]?
  rwa [filterMap_range] at rows

lemma listRulesForPreset_sorted :
    (w.listRulesForPreset tick presetId).Pairwise fun a b => a.position ≤ b.position :=
  List.pairwise_insertionSort _ _

end World

end

/-! ## The rules at any time -/

/-- A row as it may stand in the table, where `past` says what held at some time. -/
structure Stored {J : Type} (config : Config J) (past : (World J → Prop) → Prop) (row : PresetRule J) : Prop where
  valid : config.Valid row.rule
  held : config.json.jsonb row.rule = some row.rule
  writer : ∃ caller : Caller, row.lastEditedBy = some caller.userId ∧ row.lastEditedByName = some caller.name ∧
    past (MayEdit caller row.presetId)

def Sound {J : Type} (config : Config J) (past : (World J → Prop) → Prop) (w : World J) : Prop :=
  ∀ row ∈ w.rules, Stored config past row

section
variable {J : Type} {config : Config J} {past past' : (World J → Prop) → Prop} {w w' : World J} {caller : Caller}
  {presetId now : ℤ} {tick : Tick}

/-- What is known of a request that is past its checks. -/
def Admitted (config : Config J) (past : (World J → Prop) → Prop) (caller : Caller) : Request J → Prop
  | .createPresetRule presetId body => past (MayEdit caller presetId) ∧ config.Valid body.rule
  | .updatePresetRule presetId _ rule _ => past (MayEdit caller presetId) ∧ ∀ value ∈ rule, config.Valid value
  | .importPreset presetId entries => past (MayEdit caller presetId) ∧ ∀ entry ∈ entries, config.Valid entry.rule
  | _ => True

def Knows (config : Config J) (past : (World J → Prop) → Prop) : Pc J → Prop
  | .serving caller _ request created =>
    Admitted config past caller request ∧ ∀ row ∈ created, Stored config past row
  | .answered (.ok (.rules rows)) => ∀ row ∈ rows, Stored config past row
  | _ => True

lemma Stored.mono {row : PresetRule J} (stored : Stored config past row) (le : ∀ Q, past Q → past' Q) :
    Stored config past' row := by
  obtain ⟨caller, by_, name, might⟩ := stored.writer
  exact ⟨stored.valid, stored.held, caller, by_, name, le _ might⟩

lemma Sound.mono (sound : Sound config past w) (le : ∀ Q, past Q → past' Q) : Sound config past' w :=
  fun row mem => (sound row mem).mono le

lemma Admitted.mono {request : Request J} (admitted : Admitted config past caller request)
    (le : ∀ Q, past Q → past' Q) : Admitted config past' caller request := by
  cases request
  case createPresetRule => exact ⟨le _ admitted.1, admitted.2⟩
  case updatePresetRule => exact ⟨le _ admitted.1, admitted.2⟩
  case importPreset => exact ⟨le _ admitted.1, admitted.2⟩
  all_goals exact admitted

lemma Knows.mono {pc : Pc J} (knows : Knows config past pc) (le : ∀ Q, past Q → past' Q) : Knows config past' pc := by
  unfold Knows at knows ⊢
  split at knows
  · exact ⟨knows.1.mono le, fun row mem => (knows.2 row mem).mono le⟩
  · exact fun row mem => (knows row mem).mono le
  · trivial

/-- A request that passes its checks has passed them. -/
lemma Config.check_admitted {request : Request J} (ok : config.check w caller request = .ok ())
    (here : ∀ Q, Q w → past Q) : Admitted config past caller request := by
  cases request
  case createPresetRule =>
    obtain ⟨_, role, rule⟩ := bind_eq_ok ok
    exact ⟨here _ (requirePresetRole_ok role), checkRule_ok_iff.mp rule⟩
  case updatePresetRule =>
    obtain ⟨_, role, rules⟩ := bind_eq_ok ok
    refine ⟨here _ (requirePresetRole_ok role), fun value is => ?_⟩
    exact checkRules_ok_iff.mp rules value (Option.mem_toList.mpr is)
  case importPreset =>
    obtain ⟨_, role, rules⟩ := bind_eq_ok ok
    refine ⟨here _ (requirePresetRole_ok role), fun entry mem => ?_⟩
    exact checkRules_ok_iff.mp rules _ (List.mem_map_of_mem mem)
  all_goals trivial

/-! What a write leaves sound. -/

lemma Sound.others (sound : Sound config past w) (teams : Tables) (presets : List ReviewPreset) :
    Sound config past (w.others teams presets) :=
  fun row mem => sound row (List.mem_filter.mp mem).1

lemma Sound.createRule {rule stored : J} {position : ℤ} {row : PresetRule J} (sound : Sound config past w)
    (might : past (MayEdit caller presetId)) (valid : config.Valid rule)
    (held : config.column rule = .ok stored)
    (ok : w.createRule tick caller now presetId stored position = .ok (row, w')) :
    Stored config past row ∧ Sound config past w' := by
  obtain ⟨rules, -, is⟩ := World.createRule_ok ok
  have column := Config.column_ok held
  have new : Stored config past row := by
    rw [is]
    exact ⟨valid.stored column, config.json.jsonb_jsonb column, caller, rfl, rfl, might⟩
  refine ⟨new, fun other mem => ?_⟩
  rcases List.mem_append.mp (rules ▸ mem) with before | last
  · exact sound other before
  · rw [List.mem_singleton.mp last]
    exact new

lemma Sound.updateRule {ruleId : ℤ} {rule stored : Option J} {position : Option ℤ} {row : PresetRule J}
    (sound : Sound config past w) (might : past (MayEdit caller presetId)) (valid : ∀ value ∈ rule, config.Valid value)
    (held : config.columnIf rule = .ok stored)
    (ok : w.updateRule caller now presetId ruleId stored position = .ok (row, w')) : Sound config past w' := by
  have rules := World.updateRule_ok ok
  intro after mem
  obtain ⟨before, there, rfl⟩ := List.mem_map.mp (rules ▸ mem)
  have known := sound before there
  split
  case isTrue this =>
    cases rule with
    | none =>
      cases held
      exact ⟨known.valid, known.held, caller, rfl, rfl, this.2 ▸ might⟩
    | some value =>
      obtain ⟨stored, column, same⟩ := bind_eq_ok held
      cases same
      have column := Config.column_ok column
      exact ⟨(valid value rfl).stored column, config.json.jsonb_jsonb column, caller, rfl, rfl, this.2 ▸ might⟩
  case isFalse => exact known

/-- One access keeps the tables sound, and what is answered is so too. -/
lemma Config.access_keeps {request : Request J} {created : List (PresetRule J)} {pc : Pc J}
    (sound : Sound config past w) (knows : Knows config past (.serving caller now request created))
    (ok : config.access w tick caller now created request = .ok (w', pc)) :
    Sound config past w' ∧ Knows config past pc := by
  obtain ⟨admitted, rows⟩ := knows
  cases request
  case listPresetRules =>
    cases ok
    exact ⟨sound, fun row mem => sound row (World.mem_of_listed mem)⟩
  case createPresetRule =>
    obtain ⟨rule, held, ok⟩ := bind_eq_ok ok
    obtain ⟨⟨row, after⟩, written, ok⟩ := bind_eq_ok ok
    cases ok
    exact ⟨(sound.createRule admitted.1 admitted.2 held written).2, trivial⟩
  case updatePresetRule =>
    obtain ⟨rule, held, ok⟩ := bind_eq_ok ok
    obtain ⟨⟨row, after⟩, written, ok⟩ := bind_eq_ok ok
    cases ok
    exact ⟨sound.updateRule admitted.1 admitted.2 held written, trivial⟩
  case deletePresetRule =>
    cases ok
    exact ⟨fun row mem => sound row (List.mem_filter.mp mem).1, trivial⟩
  case importPreset presetId entries =>
    cases entries with
    | nil =>
      cases ok
      exact ⟨sound, rows⟩
    | cons entry entries =>
      obtain ⟨rule, held, ok⟩ := bind_eq_ok ok
      obtain ⟨⟨row, after⟩, written, ok⟩ := bind_eq_ok ok
      cases ok
      obtain ⟨might, valid⟩ := admitted
      obtain ⟨first, later⟩ := List.forall_mem_cons.mp valid
      obtain ⟨new, kept⟩ := sound.createRule might first held written
      refine ⟨kept, ⟨might, later⟩, fun other mem => ?_⟩
      rcases List.mem_append.mp mem with before | last
      · exact rows other before
      · rw [List.mem_singleton.mp last]
        exact new

lemma Config.step_keeps {i : ℕ} {pc pc' : Pc J} {input : Input J} (sound : Sound config past w)
    (knows : Knows config past pc) (here : ∀ Q, Q w → past Q)
    (st : config.step i w pc input = some (w', pc')) : Sound config past w' ∧ Knows config past pc' := by
  unfold step at st
  split at st
  · cases st
    exact ⟨sound, trivial⟩
  · cases st
    exact ⟨sound.others _ _, trivial⟩
  · split at st
    next ok =>
      cases st
      exact ⟨sound, check_admitted ok here, fun _ mem => (by cases mem)⟩
    · cases st
      exact ⟨sound, trivial⟩
  · split at st
    · split at st
      next ok =>
        cases st
        exact access_keeps sound knows ok
      · cases st
        exact ⟨sound, trivial⟩
    · cases st
  · cases st
    exact ⟨sound, trivial⟩
  · cases st
    exact ⟨sound, trivial⟩
  · cases st

variable {teams : Tables} {presets : List ReviewPreset} {C : Cond (World J) (Pc J) (Input J)}
  {tr : List (Event (Pc J) (Input J))} {s : Conf (World J) (Pc J)}

lemma Config.run_keeps (run : Run config.step C (start teams presets) tr s) :
    Sound config (Past config.step C (start teams presets) tr) s.shared ∧
      ∀ i, Knows config (Past config.step C (start teams presets) tr) (s.pc i) := by
  have kept := run.invariant (I := fun tr s => Run config.step C (start teams presets) tr s ∧
    Sound config (Past config.step C (start teams presets) tr) s.shared ∧
      ∀ i, Knows config (Past config.step C (start teams presets) tr) (s.pc i)) ?_ ?_
  · exact kept.2
  · refine ⟨.nil, fun _ mem => (by cases mem), fun _ => trivial⟩
  · rintro tr s i input w pc ⟨run, sound, knows⟩ cond st
    have later := fun Q (past : Past config.step C (start teams presets) tr Q) => past.later ⟨i, s.pc i, input, pc⟩
    obtain ⟨sound', own⟩ := step_keeps sound (knows i) (fun _ q => run.past q) st
    refine ⟨run.cons cond st, sound'.mono later, fun k => ?_⟩
    rcases s.move_pc i w pc k with ⟨-, e⟩ | ⟨-, e⟩
    · rw [e]
      exact own.mono later
    · rw [e]
      exact (knows k).mono later

end

/-- One rule, written as 0, and no other value that is one. -/
def oneRule : Json ℕ where
  fromValue value := if value = 0 then .ok ⟨"Goal", none, none, .check "goal" .exists_, .warning⟩ else .error "no rule"
  jsonb := some
  fromValue_jsonb := fun same read => Option.some.inj same ▸ read
  jsonb_jsonb := fun _ => rfl

def oneConfig : Config ℕ where
  json := oneRule
  re := noPatterns

def superAdmin : Caller := ⟨⟨7, true⟩, some "admin"⟩

def noTeams : Tables := ⟨[], ∅, ∅, by simp, by simp⟩

def twoPresets : List ReviewPreset := [⟨1, none⟩, ⟨2, none⟩]

/-- A rule of the first preset, and what is listed of it. -/
def oneListed : List (ℕ × Input ℕ) :=
  [(1, .ask superAdmin (.createPresetRule 1 ⟨0, 5⟩)), (1, .check 1), (1, .go ⟨3, []⟩),
    (2, .ask superAdmin (.listPresetRules 1)), (2, .check 2), (2, .go ⟨0, [0]⟩)]

section
variable {J : Type} {config : Config J} {w w' : World J} {b : ℤ} {entries : List (Entry J)} {pc pc' : Pc J}
  {input : Input J}

/-- Nothing but request `i` touches the rules of preset `b`, which stays, and the database does not fail for `i`. -/
def Undisturbed (config : Config J) (i : ℕ) (b : ℤ) : Cond (World J) (Pc J) (Input J) := fun _ s k input =>
  (k = i → input ≠ .fail) ∧
  (k ≠ i → ∀ w pc, config.step k s.shared (s.pc k) input = some (w, pc) →
    w.rulesOf b = s.shared.rulesOf b ∧
      ((∃ preset ∈ s.shared.presets, preset.id = b) → ∃ preset ∈ w.presets, preset.id = b))

/-- How far the import of `entries` into preset `b` has come. -/
def Importing (b : ℤ) (entries : List (Entry J)) (rows : List (PresetRule J)) : Pc J → Prop
  | .asked _ request => request = .importPreset b entries ∧ rows = []
  | .serving _ _ request created =>
    rows = created ∧ ∃ rest, request = .importPreset b rest ∧ created.map PresetRule.entry ++ rest = entries
  | .answered (.ok (.rules created)) => rows = created ∧ created.map PresetRule.entry = entries
  | .answered (.error e) => e = .forbidden "Forbidden"
  | _ => False

/-- The steps that an import still takes. -/
def Pc.left : Pc J → ℕ
  | .asked _ (.importPreset _ entries) => entries.length + 2
  | .serving _ _ (.importPreset _ entries) _ => entries.length + 1
  | _ => 0

lemma World.rulesOf_append {row : PresetRule J} (rules : w'.rules = w.rules ++ [row]) (own : row.presetId = b) :
    w'.rulesOf b = w.rulesOf b ++ [row] := by
  rw [rulesOf, rulesOf, rules, List.filter_append, List.filter_singleton]
  simp [own]

lemma Config.check_import {caller : Caller} {e : Failure} (valid : ∀ entry ∈ entries, config.Valid entry.rule)
    (refused : config.check w caller (.importPreset b entries) = .error e) : e = .forbidden "Forbidden" := by
  have rules : config.checkRules (entries.map Entry.rule) = .ok () := by
    apply checkRules_ok_iff.mpr
    simpa using valid
  simp only [check] at refused
  rcases requirePresetRole_cases w caller b with ⟨may, _⟩ | forbidden
  · rw [may, rules] at refused
    cases refused
  · rw [forbidden] at refused
    cases refused
    rfl

/-- A step of the import. -/
lemma Config.step_import {i : ℕ} (valid : ∀ entry ∈ entries, config.Valid entry.rule)
    (held : ∀ entry ∈ entries, config.json.jsonb entry.rule = some entry.rule)
    (there : ∃ preset ∈ w.presets, preset.id = b) (far : Importing b entries (w.rulesOf b) pc)
    (lucky : input ≠ .fail) (st : config.step i w pc input = some (w', pc')) :
    ((∃ preset ∈ w'.presets, preset.id = b) ∧ Importing b entries (w'.rulesOf b) pc') ∧ pc'.left < pc.left := by
  unfold step at st
  split at st
  · cases far
  · cases far
  · obtain ⟨rfl, none⟩ := far
    split at st
    · cases st
      exact ⟨⟨there, none, entries, rfl, rfl⟩, Nat.lt_succ_self _⟩
    next refused =>
      cases st
      exact ⟨⟨there, check_import valid refused⟩, Nat.succ_pos _⟩
  · next caller now request created tick =>
    obtain ⟨rows, rest, rfl, whole⟩ := far
    split at st
    · cases rest with
      | nil =>
        cases st
        exact ⟨⟨there, rows, by rw [← whole, List.append_nil]⟩, Nat.succ_pos _⟩
      | cons entry rest =>
        have column : config.column entry.rule = .ok entry.rule := by
          rw [Config.column, held entry (whole ▸ List.mem_append_right _ List.mem_cons_self)]
        obtain ⟨row, after, written⟩ := World.createRule_isOk tick caller now entry.rule entry.position there
        have ok : config.access w tick caller now created (.importPreset b (entry :: rest)) =
            .ok (after, .serving caller now (.importPreset b rest) (created ++ [row])) := by
          rw [access, column]
          show (do
            let (row, w) ← w.createRule tick caller now b entry.rule entry.position
            return (w, Pc.serving caller now (.importPreset b rest) (created ++ [row]))) = _
          rw [written]
          rfl
        rw [ok] at st
        cases st
        obtain ⟨rules, presets, is⟩ := World.createRule_ok written
        refine ⟨⟨presets ▸ there, ?_, rest, rfl, ?_⟩, Nat.lt_succ_self _⟩
        · rw [World.rulesOf_append rules (by rw [is]), rows]
        · rw [List.map_append, List.append_assoc, ← whole]
          rw [is]
          rfl
    · cases st
  · exact absurd rfl lucky
  · exact absurd rfl lucky
  · cases st

lemma Config.run_import {i : ℕ} {s₁ s₂ : Conf (World J) (Pc J)} {tr : List (Event (Pc J) (Input J))}
    (valid : ∀ entry ∈ entries, config.Valid entry.rule)
    (held : ∀ entry ∈ entries, config.json.jsonb entry.rule = some entry.rule)
    (there : ∃ preset ∈ s₁.shared.presets, preset.id = b) (far : Importing b entries (s₁.shared.rulesOf b) (s₁.pc i))
    (run : Run config.step (Undisturbed config i b) s₁ tr s₂) :
    (∃ preset ∈ s₂.shared.presets, preset.id = b) ∧ Importing b entries (s₂.shared.rulesOf b) (s₂.pc i) := by
  refine run.invariant (I := fun _ s => (∃ preset ∈ s.shared.presets, preset.id = b) ∧
    Importing b entries (s.shared.rulesOf b) (s.pc i)) ⟨there, far⟩ ?_
  rintro tr s k input w pc ⟨there, far⟩ ⟨own, others⟩ st
  by_cases this : k = i
  · subst this
    rw [Conf.move_pc_self]
    exact (step_import valid held there far (own rfl) st).1
  · rw [Conf.move_pc_of_ne fun e => this e.symm]
    obtain ⟨rows, stays⟩ := others this w pc st
    exact ⟨stays there, rows ▸ far⟩

/-- An import goes on by itself until it is answered. -/
lemma Config.import_answers {i : ℕ} {s : Conf (World J) (Pc J)} (valid : ∀ entry ∈ entries, config.Valid entry.rule)
    (held : ∀ entry ∈ entries, config.json.jsonb entry.rule = some entry.rule)
    (far : (∃ preset ∈ s.shared.presets, preset.id = b) ∧ Importing b entries (s.shared.rulesOf b) (s.pc i)) :
    Inevitable config.step (fun _ input => input ≠ .fail) i (fun s => ∃ answer, s.pc i = .answered answer) s := by
  refine Inevitable.of_measure (I := fun s => (∃ preset ∈ s.shared.presets, preset.id = b) ∧
    Importing b entries (s.shared.rulesOf b) (s.pc i)) (fun s => (s.pc i).left) ?_ ?_ far
  · rintro s ⟨there, far⟩
    cases at_ : s.pc i with
    | idle =>
      rw [at_] at far
      cases far
    | asked caller request =>
      refine .inr ⟨.check 0, ?_⟩
      simp only [step]
      cases config.check s.shared caller request with
      | ok u => exact ⟨_, fun no => (by cases no), rfl⟩
      | error e => exact ⟨_, fun no => (by cases no), rfl⟩
    | serving caller now request created =>
      refine .inr ⟨.go ⟨0, List.range s.shared.rules.length⟩, ?_⟩
      simp only [step, List.Perm.refl, if_true]
      cases config.access s.shared ⟨0, List.range s.shared.rules.length⟩ caller now created request with
      | ok after => exact ⟨_, fun no => (by cases no), rfl⟩
      | error e => exact ⟨_, fun no => (by cases no), rfl⟩
    | answered answer => exact .inl ⟨answer, rfl⟩
  · rintro s input w pc ⟨there, far⟩ lucky st
    rw [Conf.move_pc_self]
    exact step_import valid held there far lucky st

/-- The rules that are taken, from what is exported. -/
lemma Config.customRules_eq (rows : List (PresetRule J)) : config.customRules rows =
    (rows.map PresetRule.entry).filterMap fun entry => (config.json.fromValue entry.rule).toOption := by
  rw [List.filterMap_map]
  rfl

/-- Sorted rows with the same entries have them in the same order if no two have the same position. -/
lemma entries_eq {rows again : List (PresetRule J)}
    (perm : (again.map PresetRule.entry).Perm (rows.map PresetRule.entry))
    (sorted : again.Pairwise fun a b => a.position ≤ b.position)
    (sorted' : rows.Pairwise fun a b => a.position ≤ b.position) (distinct : (rows.map PresetRule.position).Nodup) :
    again.map PresetRule.entry = rows.map PresetRule.entry := by
  have inOrder {l : List (PresetRule J)} (sorted : l.Pairwise fun a b => a.position ≤ b.position) :
      (l.map PresetRule.entry).Pairwise fun a b => a.position ≤ b.position := List.pairwise_map.mpr sorted
  apply List.Perm.eq_of_pairwise _ (inOrder sorted) (inOrder sorted') perm
  intro a b mem mem' le ge
  have positions : ((rows.map PresetRule.entry).map Entry.position).Nodup := by
    rw [List.map_map]
    exact distinct
  exact List.inj_on_of_nodup_map positions (perm.subset mem) mem' (le_antisymm le ge)

/-- What was exported of a preset at some time can be imported into a preset without rules by anyone who may write them,
and the preset then has the same rules: for the evaluation in the same order, if no two have the same position. -/
theorem import_export {teams : Tables} {presets : List ReviewPreset} {C : Cond (World J) (Pc J) (Input J)}
    {tr tr' : List (Event (Pc J) (Input J))} {s s₁ s₂ : Conf (World J) (Pc J)} {i : ℕ} {caller : Caller} {a : ℤ}
    {tick : Tick} (reached : Run config.step C (start teams presets) tr s)
    (asks : s₁.pc i =
      .asked caller (.importPreset b ((s.shared.listRulesForPreset tick a).map PresetRule.entry)))
    (there : ∃ preset ∈ s₁.shared.presets, preset.id = b) (none : s₁.shared.rulesOf b = [])
    (run : Run config.step (Undisturbed config i b) s₁ tr' s₂) :
    (∀ e, s₂.pc i = .answered (.error e) → e = .forbidden "Forbidden") ∧
    Inevitable config.step (fun _ input => input ≠ .fail) i (fun s => ∃ answer, s.pc i = .answered answer) s₂ ∧
    ∀ created, s₂.pc i = .answered (.ok (.rules created)) →
      ∀ tick' : Tick, tick'.scan.Perm (List.range s₂.shared.rules.length) →
        let rows := s.shared.listRulesForPreset tick a
        let again := s₂.shared.listRulesForPreset tick' b
        (again.map PresetRule.entry).Perm (rows.map PresetRule.entry) ∧
        (config.customRules again).Perm (config.customRules rows) ∧
        ((rows.map PresetRule.position).Nodup → config.customRules again = config.customRules rows) := by
  have stored : ∀ row ∈ s.shared.listRulesForPreset tick a,
      Stored config (Past config.step C (start teams presets) tr) row :=
    fun row mem => (Config.run_keeps reached).1 row (World.mem_of_listed mem)
  have valid : ∀ entry ∈ (s.shared.listRulesForPreset tick a).map PresetRule.entry, config.Valid entry.rule := by
    intro entry mem
    obtain ⟨row, known, rfl⟩ := List.mem_map.mp mem
    exact (stored row known).valid
  have held : ∀ entry ∈ (s.shared.listRulesForPreset tick a).map PresetRule.entry,
      config.json.jsonb entry.rule = some entry.rule := by
    intro entry mem
    obtain ⟨row, known, rfl⟩ := List.mem_map.mp mem
    exact (stored row known).held
  have far := Config.run_import valid held there (by rw [asks]; exact ⟨rfl, none⟩) run
  refine ⟨fun e is => ?_, Config.import_answers valid held far, fun created is tick' whole => ?_⟩
  · have refused := far.2
    rw [is] at refused
    exact refused
  · have written := far.2
    rw [is] at written
    obtain ⟨rows, same⟩ := written
    have perm := (World.listRulesForPreset_perm b whole).map PresetRule.entry
    rw [rows, same] at perm
    refine ⟨perm, ?_, fun distinct => ?_⟩
    · rw [Config.customRules_eq, Config.customRules_eq]
      exact perm.filterMap _
    · rw [Config.customRules_eq, Config.customRules_eq, entries_eq perm World.listRulesForPreset_sorted
        World.listRulesForPreset_sorted distinct]

end

/-- The import of what was listed. -/
def importAsked : List (ℕ × Input ℕ) := oneListed ++ [(4, .ask superAdmin (.importPreset 2 [⟨0, 5⟩]))]

def importAlone : List (ℕ × Input ℕ) := [(4, .check 4), (4, .go ⟨0, [0]⟩), (4, .go ⟨0, [1, 0]⟩)]

/-- Only one request goes on, and the database does not fail. -/
def isImport (_ : Conf (World ℕ) (Pc ℕ)) (k : ℕ) : Input ℕ → Bool
  | .fail => false
  | _ => k == 4

lemma undisturbed_of_isImport {tr : List (Event (Pc ℕ) (Input ℕ))} {s : Conf (World ℕ) (Pc ℕ)} {k : ℕ}
    {input : Input ℕ} (is : isImport s k input = true) : Undisturbed oneConfig 4 2 tr s k input := by
  cases input with
  | fail => cases is
  | _ => exact ⟨fun _ failed => (by cases failed), fun other => absurd (beq_iff_eq.mp is) other⟩

theorem import_export_second :
    let s := finalOf oneConfig.step (start noTeams twoPresets) oneListed
    let s₂ := finalOf oneConfig.step (finalOf oneConfig.step (start noTeams twoPresets) importAsked) importAlone
    (oneConfig.customRules (s₂.shared.listRulesForPreset ⟨0, [0, 1]⟩ 2)).Perm
      (oneConfig.customRules (s.shared.listRulesForPreset ⟨0, [0]⟩ 1)) := by
  intro s s₂
  have reached : Run oneConfig.step Cond.any (start noTeams twoPresets)
      (traceOf oneConfig.step (start noTeams twoPresets) oneListed) s := exec_run_any (by decide +kernel)
  have run : Run oneConfig.step (Undisturbed oneConfig 4 2)
      (finalOf oneConfig.step (start noTeams twoPresets) importAsked)
      (traceOf oneConfig.step (finalOf oneConfig.step (start noTeams twoPresets) importAsked) importAlone) s₂ :=
    exec_run_checked undisturbed_of_isImport (by decide +kernel)
  have asks : (finalOf oneConfig.step (start noTeams twoPresets) importAsked).pc 4 =
      .asked superAdmin (.importPreset 2 ((s.shared.listRulesForPreset ⟨0, [0]⟩ 1).map PresetRule.entry)) := rfl
  have whole := import_export reached asks ⟨⟨2, none⟩, List.mem_of_getElem? (i := 1) rfl, rfl⟩ rfl run
  exact (whole.2.2 _ rfl ⟨0, [0, 1]⟩ (by decide +kernel)).2.1

end ArchipelagoXL.Tools.Presets
