import ArchipelagoXL.Lib.Lowercase
import ArchipelagoXL.Lib.Ranks
import ArchipelagoXL.Lib.Search
import ArchipelagoXL.Lobby.Download

/-!
# The numbers of the slots

`get_slots` numbers the YAMLs of a room by the names of their files, and `download_yamls` names the files on its
own. Names need not be ASCII here, and a loop that looks for a suffix may run out of fuel.

Both name every YAML alike, and the slots are a faithful numbering: each YAML has one slot, and the names of the
files are different and in order (`getSlots_numbers`). On ASCII names the slots are those of `Lobby.getSlots`
(`getSlots_of_ascii`).
-/

namespace ArchipelagoXL.Lobby.Numbering

open Lowercase (CaseTables)
open Ranks (sortBy)
open Search

section
variable (tables : CaseTables) (fuel : ℕ)

/-- The `loop` over the suffixes; they stay below the number of YAMLs (`NamedAfter`) and thus below `u64::MAX`. -/
def suffixLoop (emittedNames : List String) (playerName : String) : ℕ → ℕ → Option String
  | 0, _ => none
  | fuel + 1, suffix =>
    let newFileName := suffixedName playerName suffix
    if !emittedNames.contains (tables.toLowercase newFileName) then some newFileName
    else suffixLoop emittedNames playerName fuel (suffix + 1)

/-- The name of the next file. -/
def fileName (emittedNames : List String) (playerName : String) : Option String :=
  let originalFileName := playerName ++ ".yaml"
  if emittedNames.contains (tables.toLowercase originalFileName) then
    suffixLoop tables emittedNames playerName fuel 0
  else some originalFileName

variable {I : Type}

/-- The loop of `get_slots` over the YAMLs. -/
def resolveNames : List String → List (YamlWithoutContent I) → Option (List (String × I))
  | _, [] => some []
  | emittedNames, yaml :: rest => do
    let originalFileName ← fileName tables fuel emittedNames (sanitizeYamlName yaml.playerName)
    let resolved ← resolveNames (tables.toLowercase originalFileName :: emittedNames) rest
    return (originalFileName, yaml.id) :: resolved

/-- Rust `get_slots`. -/
def getSlots (roomYamls : List (YamlWithoutContent I)) : Option (List (String × I)) := do
  let resolved ← resolveNames tables fuel [] roomYamls
  return sortBy (fun slot => tables.toLowercase slot.1) resolved

/-- The loop of `download_yamls` over the YAMLs: what it writes into the archive. -/
def writeYamls : List String → List (StoredYaml I) → Option (List (String × String))
  | _, [] => some []
  | emittedNames, yaml :: rest => do
    let originalFileName ← fileName tables fuel emittedNames (sanitizeYamlName yaml.playerName)
    let written ← writeYamls (tables.toLowercase originalFileName :: emittedNames) rest
    return (originalFileName, yaml.currentContent) :: written

/-- Rust `download_yamls`: the entries of the archive. -/
def downloadYamls (yamls : List (StoredYaml I)) : Option (List (String × String)) :=
  writeYamls tables fuel [] yamls

/-- The names of the files of some players. -/
def fileNames : List String → List String → Option (List String)
  | _, [] => some []
  | emittedNames, playerName :: rest => do
    let originalFileName ← fileName tables fuel emittedNames (sanitizeYamlName playerName)
    let later ← fileNames (tables.toLowercase originalFileName :: emittedNames) rest
    return originalFileName :: later

end

/-! ## What a numbering is -/

/-- A file has the name of its player, with or without a suffix. -/
def NamedAfter (bound : ℕ) (playerName file : String) : Prop :=
  file = sanitizeYamlName playerName ++ ".yaml" ∨
    ∃ suffix < bound, file = suffixedName (sanitizeYamlName playerName) suffix

section
variable {I : Type}

/-- The slots number the YAMLs. -/
structure FaithfulNumbering (tables : CaseTables) (roomYamls : List (YamlWithoutContent I))
    (slots : List (String × I)) : Prop where
  once : (slots.map Prod.snd).Nodup
  ids : ∀ id, id ∈ slots.map Prod.snd ↔ id ∈ roomYamls.map (·.id)
  distinct : slots.Pairwise fun a b => tables.toLowercase a.1 ≠ tables.toLowercase b.1
  increasing : slots.Pairwise fun a b => tables.toLowercase a.1 < tables.toLowercase b.1
  named : ∀ slot ∈ slots, ∃ yaml ∈ roomYamls, yaml.id = slot.2 ∧ NamedAfter roomYamls.length yaml.playerName slot.1

/-- The rows of the same YAMLs, without and with their content. -/
def SameYamls (roomYamls : List (YamlWithoutContent I)) (yamls : List (StoredYaml I)) : Prop :=
  yamls.map (fun yaml => (yaml.id, yaml.playerName)) = roomYamls.map fun yaml => (yaml.id, yaml.playerName)

/-- Each YAML is written under the name that its slot has. -/
def WrittenAs (slots : List (String × I)) (yamls : List (StoredYaml I)) (entries : List (String × String)) : Prop :=
  List.Forall₂ (fun yaml entry => (entry.1, yaml.id) ∈ slots ∧ entry.2 = yaml.currentContent) yamls entries

end

/-! ## ASCII texts -/

section
variable {tables : CaseTables}

/-- A text of ASCII characters. -/
def IsAscii (s : String) : Prop := ∀ c ∈ s.toList, c.toNat < 128

lemma toLowercase_eq {s : String} (ascii : IsAscii s) : tables.toLowercase s = toLowercase s :=
  Lowercase.toLowercase_of_ascii ascii

lemma IsAscii.append {s t : String} (ascii : IsAscii s) (ascii' : IsAscii t) : IsAscii (s ++ t) := by
  intro c mem
  rw [String.toList_append] at mem
  rcases List.mem_append.mp mem with mem | mem
  · exact ascii c mem
  · exact ascii' c mem

lemma isAscii_toString (n : ℕ) : IsAscii (toString n) := by
  intro c mem
  have digit := isDigit_of_mem_toString mem
  simp only [Char.isDigit, Bool.and_eq_true, decide_eq_true_eq, UInt32.le_iff_toNat_le] at digit
  have le : c.toNat ≤ 57 := digit.2
  omega

lemma isAscii_of_all {s : String} (all : s.toList.all (fun c => decide (c.toNat < 128)) = true) : IsAscii s :=
  fun c mem => of_decide_eq_true (List.all_eq_true.mp all c mem)

lemma isAscii_yaml : IsAscii ".yaml" := isAscii_of_all (by decide)

lemma IsAscii.suffixedName {playerName : String} (ascii : IsAscii playerName) (suffix : ℕ) :
    IsAscii (suffixedName playerName suffix) := by
  have underscore : IsAscii "_" := isAscii_of_all (by decide)
  exact ((ascii.append underscore).append (isAscii_toString suffix)).append isAscii_yaml

lemma IsAscii.sanitizeYamlName {name : String} (ascii : IsAscii name) : IsAscii (sanitizeYamlName name) := by
  intro c mem
  rcases mem_sanitizeYamlName mem with rfl | ⟨ofName, _⟩
  · decide
  · exact ascii c ofName

/-! ## The loop over the suffixes -/

/-- What stands before the suffix is lowercased alike for all suffixes. -/
lemma toList_toLowercase_suffixedName (playerName : String) (suffix : ℕ) :
    (tables.toLowercase (suffixedName playerName suffix)).toList =
      tables.lowerFrom [] (playerName.toList ++ ['_']) ++ (toLowercase (toString suffix ++ ".yaml")).toList := by
  have parts : (suffixedName playerName suffix).toList =
      playerName.toList ++ '_' :: (toString suffix ++ ".yaml").toList := by simp [suffixedName]
  have ascii : IsAscii (toString suffix ++ ".yaml") := (isAscii_toString suffix).append isAscii_yaml
  rw [CaseTables.toLowercase, String.toList_ofList, parts, Lowercase.lowerFrom_append,
    Lowercase.lowerFrom_of_ascii ascii, toLowercase, String.toList_ofList]

/-- Files with different suffixes have different names. -/
lemma lowercase_suffixedName (playerName : String) :
    Function.Injective fun suffix => tables.toLowercase (suffixedName playerName suffix) := by
  intro m n same
  have same := congrArg String.toList same
  rw [toList_toLowercase_suffixedName, toList_toLowercase_suffixedName, List.append_cancel_left_eq,
    String.toList_inj] at same
  rw [toLowercase_append, toLowercase_append, toLowercase_toString, toLowercase_toString,
    String.append_left_inj] at same
  exact toString_injective same

lemma suffixLoop_eq (emittedNames : List String) (playerName : String) (fuel suffix : ℕ) :
    suffixLoop tables emittedNames playerName fuel suffix =
      (searchFrom (fun suffix => !emittedNames.contains (tables.toLowercase (suffixedName playerName suffix)))
        fuel suffix).map (suffixedName playerName) := by
  induction fuel generalizing suffix with
  | zero => rfl
  | succ fuel ih =>
    rw [suffixLoop, searchFrom, ih]
    split <;> rfl

variable (tables) in
/-- The loop ends, with a name that is not taken. -/
lemma fileName_ends (emittedNames : List String) (playerName : String) :
    ∃ file, tables.toLowercase file ∉ emittedNames ∧
      (file = playerName ++ ".yaml" ∨ ∃ suffix ≤ emittedNames.length, file = suffixedName playerName suffix) ∧
      ∀ fuel > emittedNames.length, fileName tables fuel emittedNames playerName = some file := by
  by_cases taken : emittedNames.contains (tables.toLowercase (playerName ++ ".yaml")) = true
  · obtain ⟨suffix, small, free, found⟩ := searchFrom_ends (lowercase_suffixedName playerName) emittedNames
    refine ⟨suffixedName playerName suffix, free, .inr ⟨suffix, small, rfl⟩, ?_⟩
    intro fuel enough
    rw [fileName, if_pos taken, suffixLoop_eq, found fuel enough]
    rfl
  · refine ⟨playerName ++ ".yaml", ?_, .inl rfl, ?_⟩
    · simpa using taken
    · intro fuel _
      rw [fileName, if_neg taken]

/-! ## The loops over the YAMLs -/

variable (tables) in
/-- Files with names that are different and not taken. -/
lemma fileNames_ends (emittedNames playerNames : List String) :
    ∃ files, (files.map tables.toLowercase).Nodup ∧ (∀ file ∈ files, tables.toLowercase file ∉ emittedNames) ∧
      List.Forall₂ (NamedAfter (emittedNames.length + playerNames.length)) playerNames files ∧
      ∀ fuel ≥ emittedNames.length + playerNames.length,
        fileNames tables fuel emittedNames playerNames = some files := by
  induction playerNames generalizing emittedNames with
  | nil => exact ⟨[], List.nodup_nil, fun _ mem => absurd mem List.not_mem_nil, .nil, fun _ _ => rfl⟩
  | cons playerName rest ih =>
    obtain ⟨file, free, shape, here⟩ := fileName_ends tables emittedNames (sanitizeYamlName playerName)
    obtain ⟨files, nodup, fresh, named, later⟩ := ih (tables.toLowercase file :: emittedNames)
    have length : (tables.toLowercase file :: emittedNames).length + rest.length =
        emittedNames.length + (playerName :: rest).length := by
      simp only [List.length_cons]
      omega
    rw [length] at named later
    have notAgain : tables.toLowercase file ∉ files.map tables.toLowercase := by
      intro again
      obtain ⟨other, mem, same⟩ := List.mem_map.mp again
      exact fresh other mem (same ▸ List.mem_cons_self)
    have notTaken : ∀ other ∈ file :: files, tables.toLowercase other ∉ emittedNames := by
      intro other mem
      rcases List.mem_cons.mp mem with rfl | mem
      · exact free
      · exact fun taken => fresh other mem (List.mem_cons_of_mem _ taken)
    have first : NamedAfter (emittedNames.length + (playerName :: rest).length) playerName file := by
      refine shape.imp_right ?_
      rintro ⟨suffix, small, rfl⟩
      refine ⟨suffix, ?_, rfl⟩
      rw [List.length_cons]
      omega
    refine ⟨file :: files, List.nodup_cons.mpr ⟨notAgain, nodup⟩, notTaken, .cons first named, ?_⟩
    intro fuel enough
    have enoughHere : fuel > emittedNames.length := by
      rw [List.length_cons] at enough
      omega
    rw [fileNames, here fuel enoughHere, Option.bind_eq_bind, Option.bind_some, later fuel enough]
    rfl

variable {I : Type}

/-- `get_slots` puts each name beside its YAML. -/
lemma resolveNames_eq (fuel : ℕ) (emittedNames : List String) (roomYamls : List (YamlWithoutContent I)) :
    resolveNames tables fuel emittedNames roomYamls =
      (fileNames tables fuel emittedNames (roomYamls.map (·.playerName))).map fun files =>
        files.zip (roomYamls.map (·.id)) := by
  induction roomYamls generalizing emittedNames with
  | nil => rfl
  | cons yaml rest ih =>
    simp only [resolveNames, List.map_cons, fileNames]
    rcases fileName tables fuel emittedNames (sanitizeYamlName yaml.playerName) with _ | file
    case none => rfl
    case some =>
      simp only [bind, Option.bind, ih]
      generalize fileNames tables fuel (tables.toLowercase file :: emittedNames) _ = later
      cases later with
      | none => rfl
      | some files => rfl

/-- `download_yamls` writes each content under its name. -/
lemma writeYamls_eq (fuel : ℕ) (emittedNames : List String) (yamls : List (StoredYaml I)) :
    writeYamls tables fuel emittedNames yamls =
      (fileNames tables fuel emittedNames (yamls.map (·.playerName))).map fun files =>
        files.zip (yamls.map (·.currentContent)) := by
  induction yamls generalizing emittedNames with
  | nil => rfl
  | cons yaml rest ih =>
    simp only [writeYamls, List.map_cons, fileNames]
    rcases fileName tables fuel emittedNames (sanitizeYamlName yaml.playerName) with _ | file
    case none => rfl
    case some =>
      simp only [bind, Option.bind, ih]
      generalize fileNames tables fuel (tables.toLowercase file :: emittedNames) _ = later
      cases later with
      | none => rfl
      | some files => rfl

/-! ## The slots and the archive -/

/-- What stands beside the id of a YAML is named after it. -/
lemma exists_of_mem_zip {R : YamlWithoutContent I → String → Prop} {roomYamls : List (YamlWithoutContent I)}
    {files : List String} (named : List.Forall₂ R roomYamls files) {slot : String × I}
    (mem : slot ∈ files.zip (roomYamls.map (·.id))) : ∃ yaml ∈ roomYamls, yaml.id = slot.2 ∧ R yaml slot.1 := by
  induction named with
  | nil => cases mem
  | @cons yaml file roomYamls files here _ ih =>
    rcases List.mem_cons.mp mem with rfl | mem
    · exact ⟨yaml, List.mem_cons_self, rfl, here⟩
    · obtain ⟨other, there, result⟩ := ih mem
      exact ⟨other, List.mem_cons_of_mem _ there, result⟩

lemma faithful_of_files {roomYamls : List (YamlWithoutContent I)} (ids : (roomYamls.map (·.id)).Nodup)
    {files : List String} (distinct : (files.map tables.toLowercase).Nodup)
    (named : List.Forall₂ (NamedAfter roomYamls.length) (roomYamls.map (·.playerName)) files) :
    FaithfulNumbering tables roomYamls
      (sortBy (fun slot => tables.toLowercase slot.1) (files.zip (roomYamls.map (·.id)))) := by
  have length : roomYamls.length = files.length := by simpa using named.length_eq
  have perm := Ranks.sortBy_perm (fun slot => tables.toLowercase slot.1) (files.zip (roomYamls.map (·.id)))
  have allIds : (files.zip (roomYamls.map (·.id))).map Prod.snd = roomYamls.map (·.id) :=
    List.map_snd_zip (by simp [length])
  have allFiles : (files.zip (roomYamls.map (·.id))).map Prod.fst = files := List.map_fst_zip (by simp [length])
  have keys : ((files.zip (roomYamls.map (·.id))).map fun slot => tables.toLowercase slot.1).Nodup := by
    rwa [← allFiles, List.map_map] at distinct
  have increasing := Ranks.sortBy_strict keys
  refine ⟨?_, ?_, increasing.imp fun lt => lt.ne, increasing, ?_⟩
  · rwa [(perm.map Prod.snd).nodup_iff, allIds]
  · intro id
    rw [(perm.map Prod.snd).mem_iff, allIds]
  · intro slot mem
    exact exists_of_mem_zip (List.forall₂_map_left_iff.mp named) (perm.mem_iff.mp mem)

/-- A YAML stands in one place of both lists. -/
lemma writtenAs_zip {yamls : List (StoredYaml I)} {files : List String} (length : yamls.length = files.length) :
    WrittenAs (files.zip (yamls.map (·.id))) yamls (files.zip (yamls.map (·.currentContent))) := by
  induction yamls generalizing files with
  | nil =>
    simp only [List.map_nil, List.zip_nil_right]
    exact .nil
  | cons yaml rest ih =>
    cases files with
    | nil => cases length
    | cons file files =>
      refine .cons ⟨List.mem_cons_self, rfl⟩ ?_
      exact (ih (Nat.succ.inj length)).imp fun _ _ written => ⟨List.mem_cons_of_mem _ written.1, written.2⟩

/-- The slots number the YAMLs, and the YAMLs are downloaded under the names of their slots. -/
theorem getSlots_numbers (tables : CaseTables) (roomYamls : List (YamlWithoutContent I))
    (ids : (roomYamls.map (·.id)).Nodup) :
    ∃ slots, (∀ fuel ≥ roomYamls.length, getSlots tables fuel roomYamls = some slots) ∧
      FaithfulNumbering tables roomYamls slots ∧
      ∀ yamls, SameYamls roomYamls yamls →
        ∃ entries, (∀ fuel ≥ roomYamls.length, downloadYamls tables fuel yamls = some entries) ∧
          WrittenAs slots yamls entries := by
  obtain ⟨files, distinct, _, named, ends⟩ := fileNames_ends tables [] (roomYamls.map (·.playerName))
  simp only [List.length_nil, List.length_map, Nat.zero_add] at named ends
  refine ⟨sortBy (fun slot => tables.toLowercase slot.1) (files.zip (roomYamls.map (·.id))), ?_, ?_, ?_⟩
  · intro fuel enough
    rw [getSlots, resolveNames_eq, ends fuel enough]
    rfl
  · exact faithful_of_files ids distinct named
  · intro yamls same
    have names : yamls.map (·.playerName) = roomYamls.map (·.playerName) := by
      simpa [Function.comp_def] using congrArg (List.map Prod.snd) same
    have sameIds : yamls.map (·.id) = roomYamls.map (·.id) := by
      simpa [Function.comp_def] using congrArg (List.map Prod.fst) same
    have length : yamls.length = files.length := by
      have := named.length_eq
      rwa [← names, List.length_map] at this
    refine ⟨files.zip (yamls.map (·.currentContent)), ?_, ?_⟩
    · intro fuel enough
      rw [downloadYamls, writeYamls_eq, names, ends fuel enough]
      rfl
    · refine (writtenAs_zip length).imp fun yaml entry written => ⟨?_, written.2⟩
      rw [(Ranks.sortBy_perm _ _).mem_iff, ← sameIds]
      exact written.1

/-- Three players whose file names get in each other's way. -/
def threeYamls : List (StoredYaml ℕ) :=
  [⟨1, 1, 1, 30, "a", "", none⟩, ⟨2, 2, 1, 30, "a_0", "", none⟩, ⟨3, 3, 1, 30, "A", "", none⟩]

theorem threeYamls_numbered : ∃ slots entries,
    getSlots Lowercase.asciiTables 3 (threeYamls.map (·.withoutContent)) = some slots ∧
      FaithfulNumbering Lowercase.asciiTables (threeYamls.map (·.withoutContent)) slots ∧
      downloadYamls Lowercase.asciiTables 3 threeYamls = some entries ∧ WrittenAs slots threeYamls entries := by
  obtain ⟨slots, ends, faithful, written⟩ :=
    getSlots_numbers Lowercase.asciiTables (threeYamls.map (·.withoutContent)) (by decide)
  obtain ⟨entries, ends', written⟩ := written threeYamls rfl
  exact ⟨slots, entries, ends 3 le_rfl, faithful, ends' 3 le_rfl, written⟩

example : getSlots Lowercase.asciiTables 3 (threeYamls.map (·.withoutContent)) =
    some [("a.yaml", 1), ("a_0.yaml", 2), ("A_1.yaml", 3)] := by decide +kernel

/-! ## ASCII names -/

/-- A file has the name that it has if only ASCII letters have another case. -/
lemma fileName_of_ascii {emittedNames : List String} {playerName : String} (ascii : IsAscii playerName) {fuel : ℕ}
    (enough : fuel > emittedNames.length) :
    fileName tables fuel emittedNames playerName = some (Lobby.fileName emittedNames playerName) := by
  rw [fileName, Lobby.fileName, toLowercase_eq (ascii.append isAscii_yaml)]
  split
  case isFalse => rfl
  case isTrue =>
    have same : (fun suffix => !emittedNames.contains (tables.toLowercase (suffixedName playerName suffix))) =
        fun suffix => !emittedNames.contains (toLowercase (suffixedName playerName suffix)) := by
      funext suffix
      rw [toLowercase_eq (ascii.suffixedName suffix)]
    obtain ⟨suffix, _, _, found⟩ := searchFrom_ends (suffixedName_injective playerName) emittedNames
    have first := found _ (Nat.lt_succ_self _)
    rw [searchFrom_eq, ← List.range_eq_range'] at first
    rw [suffixLoop_eq, same, found fuel enough, first]
    rfl

lemma isAscii_fileName {playerName : String} (ascii : IsAscii playerName) (emittedNames : List String) :
    IsAscii (Lobby.fileName emittedNames playerName) := by
  rcases fileName_cases emittedNames playerName with plain | ⟨suffix, suffixed⟩
  · exact plain ▸ ascii.append isAscii_yaml
  · exact suffixed ▸ ascii.suffixedName suffix

/-- The names of the files of ASCII names, found without fuel. -/
lemma resolveNames_of_ascii {fuel : ℕ} {emittedNames : List String} {roomYamls : List (YamlWithoutContent I)}
    (ascii : ∀ yaml ∈ roomYamls, IsAscii yaml.playerName) (enough : fuel ≥ emittedNames.length + roomYamls.length) :
    resolveNames tables fuel emittedNames roomYamls = some (withFileNames emittedNames roomYamls) ∧
      ∀ slot ∈ withFileNames emittedNames roomYamls, IsAscii slot.1 := by
  induction roomYamls generalizing emittedNames with
  | nil => exact ⟨rfl, fun _ mem => absurd mem List.not_mem_nil⟩
  | cons yaml rest ih =>
    obtain ⟨here, later⟩ := List.forall_mem_cons.mp ascii
    rw [List.length_cons] at enough
    have name : fileName tables fuel emittedNames (sanitizeYamlName yaml.playerName) =
        some (Lobby.fileName emittedNames (sanitizeYamlName yaml.playerName)) :=
      fileName_of_ascii here.sanitizeYamlName (by omega)
    have isAscii := isAscii_fileName here.sanitizeYamlName emittedNames
    obtain ⟨resolved, allAscii⟩ :=
      @ih (toLowercase (Lobby.fileName emittedNames (sanitizeYamlName yaml.playerName)) :: emittedNames)
        later (by rw [List.length_cons]; omega)
    refine ⟨?_, List.forall_mem_cons.mpr ⟨isAscii, allAscii⟩⟩
    rw [resolveNames, name, Option.bind_eq_bind, Option.bind_some, toLowercase_eq isAscii, resolved]
    rfl

/-- On ASCII names the slots are those that `Lobby.getSlots` finds without fuel. -/
lemma getSlots_of_ascii {fuel : ℕ} {roomYamls : List (YamlWithoutContent I)}
    (ascii : ∀ yaml ∈ roomYamls, IsAscii yaml.playerName) (enough : fuel ≥ roomYamls.length) :
    getSlots tables fuel roomYamls = some (Lobby.getSlots roomYamls) := by
  have within : fuel ≥ ([] : List String).length + roomYamls.length := by simpa using enough
  obtain ⟨resolved, allAscii⟩ := @resolveNames_of_ascii tables I fuel [] roomYamls ascii within
  have same : sortBy (fun slot => tables.toLowercase slot.1) (withFileNames [] roomYamls) =
      sortBy (fun slot => toLowercase slot.1) (withFileNames [] roomYamls) := by
    apply Ranks.sortBy_congr
    intro slot mem
    exact toLowercase_eq (allAscii slot mem)
  rw [getSlots, resolved, Option.bind_eq_bind, Option.bind_some, same]
  rfl

end

end ArchipelagoXL.Lobby.Numbering
