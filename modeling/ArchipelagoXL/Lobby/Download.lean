import ArchipelagoXL.Lobby.Slots
import ArchipelagoXL.Lobby.Uploads

/-!
# The YAMLs of a generation

A worker that generates a room asks for its YAMLs (`download_yamls` in `lobby/src/views/room/main.rs`), extracts
them to a folder and writes the meta file beside (`ap-worker/gen_wq.py`); Archipelago then reads every file of
the folder but the meta file and those that start with a dot, by their lowercased names.

The files are named as in `get_slots`. A room that uploads and deletions lead to is generated as a whole exactly
if every YAML has a name and no file name is too long (`everyYamlGenerated_iff`).
-/

namespace ArchipelagoXL.Lobby

/-! ## The folder -/

/-- The files of a folder. -/
abbrev Folder := List (String × String)

/-- The names that a file can have. -/
def FileNameOk (name : String) : Prop :=
  name ≠ "" ∧ name.utf8ByteSize ≤ 255 ∧ '/' ∉ name.toList ∧ '\x00' ∉ name.toList

instance (name : String) : Decidable (FileNameOk name) := inferInstanceAs (Decidable (_ ∧ _ ∧ _ ∧ _))

/-- A file is written, in the place of one with its name. -/
def Folder.write (folder : Folder) (name content : String) : Option Folder :=
  if FileNameOk name then some (folder.filter (fun file => file.1 ≠ name) ++ [(name, content)]) else none

/-- Python `ZipFile.extractall`. -/
def extractAll : Folder → List (String × String) → Option Folder
  | folder, [] => some folder
  | folder, (name, content) :: rest => (folder.write name content).bind fun folder => extractAll folder rest

section
variable {I : Type}

/-- The row without its content. -/
def StoredYaml.withoutContent (yaml : StoredYaml I) : YamlWithoutContent I := ⟨yaml.id, yaml.playerName, none⟩

/-- The loop of `download_yamls`: the entries of the archive. -/
def downloadYamls : List String → List (StoredYaml I) → List (String × String)
  | _, [] => []
  | emittedNames, yaml :: rest =>
    let originalFileName := fileName emittedNames (sanitizeYamlName yaml.playerName)
    (originalFileName, yaml.currentContent) :: downloadYamls (toLowercase originalFileName :: emittedNames) rest

end

/-! ## The worker -/

/-- What the worker uses of Python and Archipelago: how a meta file is read and written, with sections in `S` and
what they say in `C`. -/
structure MetaLib (S C : Type) where
  safeLoad : String → Option (List (S × C))
  dump : List (S × C) → String
  metaDescription : S
  description : C
  /-- The section is of a game that is loaded, or has no name. -/
  isKnown : S → Bool

section
variable {S C : Type} [DecidableEq S]

/-- The sections of the meta file that are kept, described as "meta file". -/
def MetaLib.filteredMeta (lib : MetaLib S C) (sections : List (S × C)) : List (S × C) :=
  let kept := sections.filter fun e => e.1 = lib.metaDescription || lib.isKnown e.1
  if kept.any fun e => e.1 = lib.metaDescription then
    kept.map fun e => if e.1 = lib.metaDescription then (e.1, lib.description) else e
  else kept ++ [(lib.metaDescription, lib.description)]

/-- The players' folder when `handle_job` calls `GenMain`, if it does; `loads` says that the apworlds can be
loaded. -/
def MetaLib.playersFolder (lib : MetaLib S C) (entries : List (String × String)) (loads : Bool)
    (metaFile : Option String) : Option Folder := do
  let folder ← extractAll [] entries
  if !loads then none
  else
    match metaFile with
    | none => some folder
    | some text =>
      if text = "" then some folder
      else do
        let sections ← lib.safeLoad text
        folder.write "meta.yaml" (lib.dump (lib.filteredMeta sections))

end

/-- What Archipelago reads of a folder, in the order of the slots. -/
def archipelagoFiles (folder : Folder) : List (String × String) :=
  (folder.filter fun file => file.1 ≠ "meta.yaml" && file.1.toList.head? != some '.').insertionSort
    fun a b => toLowercase a.1 ≤ toLowercase b.1

section
variable {S C I : Type} [DecidableEq S] [LinearOrder I]

/-- A folder has one file for each YAML besides the meta file, none that Archipelago passes over, and is read in
the order of the slots. -/
structure HoldsYamls (folder : Folder) (yamls : List (StoredYaml I)) : Prop where
  names : (folder.map Prod.fst).Nodup
  contents : ((folder.filter fun file => file.1 ≠ "meta.yaml").map Prod.snd).Perm (yamls.map (·.currentContent))
  noDot : ∀ file ∈ folder, file.1.toList.head? ≠ some '.'
  order : (archipelagoFiles folder).map some = (getSlots (yamls.map (·.withoutContent))).map fun slot =>
    (yamls.find? fun yaml => yaml.id = slot.2).map fun yaml => (slot.1, yaml.currentContent)

/-- The YAMLs of a room can be extracted, and whenever Archipelago is called its folder holds them, whatever the
meta file. -/
def LobbyTables.EveryYamlGenerated (lib : MetaLib S C) (db : LobbyTables I) (roomId : I) : Prop :=
  (extractAll [] (downloadYamls [] (db.yamlsForRoom roomId))).isSome ∧
  ∀ loads metaFile folder,
    lib.playersFolder (downloadYamls [] (db.yamlsForRoom roomId)) loads metaFile = some folder →
    HoldsYamls folder (db.yamlsForRoom roomId)

/-! ## The names of the files -/

omit [LinearOrder I] in
/-- A file has the name of its YAML, with or without a suffix. -/
lemma fileName_cases (emittedNames : List String) (playerName : String) :
    fileName emittedNames playerName = playerName ++ ".yaml" ∨
      ∃ suffix, fileName emittedNames playerName = suffixedName playerName suffix := by
  rw [fileName]
  split
  · split
    · rename_i suffix _
      exact .inr ⟨suffix, rfl⟩
    · exact .inl rfl
  · exact .inl rfl

end

/-- The characters of a file name are those of the player's name, digits, or of the ending. -/
lemma mem_fileName {emittedNames : List String} {playerName : String} {c : Char}
    (mem : c ∈ (fileName emittedNames playerName).toList) :
    c ∈ playerName.toList ∨ c = '_' ∨ c.isDigit = true ∨ c ∈ ".yaml".toList := by
  rcases fileName_cases emittedNames playerName with plain | ⟨suffix, suffixed⟩
  · rw [plain, String.toList_append] at mem
    rcases List.mem_append.mp mem with ofName | ending
    · exact .inl ofName
    · exact .inr (.inr (.inr ending))
  · rw [suffixed, suffixedName, String.toList_append, String.toList_append, String.toList_append] at mem
    rcases List.mem_append.mp mem with front | ending
    · rcases List.mem_append.mp front with front | digit
      · rcases List.mem_append.mp front with ofName | underscore
        · exact .inl ofName
        · exact .inr (.inl (List.mem_singleton.mp underscore))
      · exact .inr (.inr (.inl (isDigit_of_mem_toString digit)))
    · exact .inr (.inr (.inr ending))

/-- A name that is not empty starts its file name. -/
lemma head_fileName (emittedNames : List String) {playerName : String} {c : Char}
    (head : playerName.toList.head? = some c) : (fileName emittedNames playerName).toList.head? = some c := by
  obtain ⟨rest, name⟩ := List.head?_eq_some_iff.mp head
  rcases fileName_cases emittedNames playerName with plain | ⟨suffix, suffixed⟩
  · rw [plain, String.toList_append, name]
    rfl
  · rw [suffixed, suffixedName, String.toList_append, String.toList_append, String.toList_append, name]
    rfl

/-- The character that stands for one of a name. -/
def sanitizedChar (c : Char) : Char :=
  if ['/', '\\', '<', '>', ':', '?', '*', '|', '"'].contains c then '_' else c

lemma toList_sanitizeYamlName (name : String) :
    (sanitizeYamlName name).toList = name.toList.map sanitizedChar ∨
      ∃ rest, name.toList.map sanitizedChar = '.' :: rest ∧ (sanitizeYamlName name).toList = '_' :: rest := by
  rw [sanitizeYamlName]
  split
  · rename_i rest sanitized
    exact .inr ⟨rest, sanitized, String.toList_ofList⟩
  · exact .inl String.toList_ofList

/-- A sanitized name has the characters of the name, or an underscore in their place. -/
lemma mem_sanitizeYamlName {name : String} {c : Char} (mem : c ∈ (sanitizeYamlName name).toList) :
    c = '_' ∨ c ∈ name.toList ∧ sanitizedChar c = c := by
  have ofMap : c ∈ name.toList.map sanitizedChar → c = '_' ∨ c ∈ name.toList ∧ sanitizedChar c = c := by
    intro mem
    obtain ⟨d, there, rfl⟩ := List.mem_map.mp mem
    rw [sanitizedChar]
    split
    · exact .inl rfl
    · rename_i kept
      exact .inr ⟨there, if_neg kept⟩
  rcases toList_sanitizeYamlName name with same | ⟨rest, sanitized, same⟩
  · exact ofMap (same ▸ mem)
  · rw [same] at mem
    rcases List.mem_cons.mp mem with rfl | mem
    · exact .inl rfl
    · exact ofMap (sanitized ▸ List.mem_cons_of_mem _ mem)

/-- A sanitized name does not start with a dot. -/
lemma head_sanitizeYamlName (name : String) : (sanitizeYamlName name).toList.head? ≠ some '.' := by
  rcases toList_sanitizeYamlName name with same | ⟨rest, _, same⟩
  · rw [same]
    intro dot
    rw [sanitizeYamlName] at same
    split at same
    · rename_i rest sanitized
      rw [String.toList_ofList, show name.toList.map sanitizedChar = '.' :: rest from sanitized] at same
      exact absurd (List.cons.inj same).1 (by decide)
    · rename_i noDot
      obtain ⟨rest, sanitized⟩ := List.head?_eq_some_iff.mp dot
      exact noDot rest sanitized
  · rw [same]
    exact fun e => absurd (Option.some.inj e) (by decide)

lemma sanitizeYamlName_ne_empty {name : String} (nonempty : name ≠ "") : sanitizeYamlName name ≠ "" := by
  have chars : name.toList ≠ [] := fun e => nonempty (String.toList_inj.mp e)
  intro empty
  rcases toList_sanitizeYamlName name with same | ⟨rest, _, same⟩
  · rw [empty] at same
    exact chars (List.map_eq_nil_iff.mp same.symm)
  · rw [empty] at same
    cases same

/-- The file of a YAML with a name does not start with a dot. -/
lemma head_fileName_sanitized (emittedNames : List String) {name : String} (nonempty : name ≠ "") :
    (fileName emittedNames (sanitizeYamlName name)).toList.head? ≠ some '.' := by
  cases chars : (sanitizeYamlName name).toList with
  | nil => exact absurd (String.toList_inj.mp chars) (sanitizeYamlName_ne_empty nonempty)
  | cons c rest =>
    have head : (sanitizeYamlName name).toList.head? = some c := by rw [chars, List.head?_cons]
    rw [head_fileName emittedNames head, ← head]
    exact head_sanitizeYamlName name

/-- The file of a YAML can have its name, unless it is too long. -/
lemma fileNameOk_iff (emittedNames : List String) {name : String} (noNul : '\x00' ∉ name.toList) :
    FileNameOk (fileName emittedNames (sanitizeYamlName name)) ↔
      (fileName emittedNames (sanitizeYamlName name)).utf8ByteSize ≤ 255 := by
  refine ⟨fun ok => ok.2.1, fun short => ⟨?_, short, ?_, ?_⟩⟩
  · intro empty
    rcases fileName_cases emittedNames (sanitizeYamlName name) with plain | ⟨suffix, suffixed⟩
    · have chars := congrArg String.toList (plain.symm.trans empty)
      rw [String.toList_append] at chars
      cases (List.append_eq_nil_iff.mp chars).2
    · have chars := congrArg String.toList (suffixed.symm.trans empty)
      rw [suffixedName, String.toList_append] at chars
      cases (List.append_eq_nil_iff.mp chars).2
  · intro mem
    rcases mem_fileName mem with ofName | underscore | digit | ending
    · rcases mem_sanitizeYamlName ofName with underscore | ⟨_, kept⟩
      · exact absurd underscore (by decide)
      · exact absurd kept (by decide)
    · exact absurd underscore (by decide)
    · exact absurd digit (by decide)
    · exact absurd ending (by decide)
  · intro mem
    rcases mem_fileName mem with ofName | underscore | digit | ending
    · rcases mem_sanitizeYamlName ofName with underscore | ⟨there, _⟩
      · exact absurd underscore (by decide)
      · exact noNul there
    · exact absurd underscore (by decide)
    · exact absurd digit (by decide)
    · exact absurd ending (by decide)

/-- Only the name "meta" is sanitized to it. -/
lemma eq_meta_of_sanitizeYamlName {name : String} (isMeta : sanitizeYamlName name = "meta") : name = "meta" := by
  have noUnderscore : '_' ∉ (sanitizeYamlName name).toList := by
    rw [isMeta]
    decide
  rcases toList_sanitizeYamlName name with same | ⟨rest, _, same⟩
  · have kept : name.toList.map sanitizedChar = name.toList.map id := by
      refine List.map_congr_left fun c mem => ?_
      rw [sanitizedChar]
      split
      · rename_i replaced
        refine absurd ?_ noUnderscore
        rw [same]
        exact List.mem_map.mpr ⟨c, mem, if_pos replaced⟩
      · rfl
    rw [kept, List.map_id, isMeta] at same
    exact String.toList_inj.mp same.symm
  · rw [same] at noUnderscore
    exact absurd List.mem_cons_self noUnderscore

/-- The lobby takes no YAML with the name "meta". -/
lemma not_acceptedName_meta : ¬ AcceptedName "meta" := by
  rintro ⟨playersInRoom, playerCounter, accepted, valid⟩
  have plain : PlainName "meta" := ⟨by decide, by decide, by decide, by decide, by decide⟩
  have name := plain.getApPlayerName playerCounter
  obtain ⟨_, _, rfl, notReserved, _⟩ := validatePlayerName_ok valid
  rw [name] at notReserved
  exact absurd notReserved (by decide)

/-- No file of a YAML is taken for the meta file. -/
lemma fileName_ne_meta (emittedNames : List String) {name : String} (accepted : AcceptedName name) :
    fileName emittedNames (sanitizeYamlName name) ≠ "meta.yaml" := by
  intro isMeta
  rcases fileName_cases emittedNames (sanitizeYamlName name) with plain | ⟨suffix, suffixed⟩
  · have name_ : sanitizeYamlName name ++ ".yaml" = "meta" ++ ".yaml" := plain.symm.trans isMeta
    rw [eq_meta_of_sanitizeYamlName ((String.append_left_inj _).mp name_)] at accepted
    exact not_acceptedName_meta accepted
  · have underscore : '_' ∈ (suffixedName (sanitizeYamlName name) suffix).toList := by
      rw [suffixedName, String.toList_append, String.toList_append, String.toList_append]
      simp
    rw [← suffixed, isMeta] at underscore
    exact absurd underscore (by decide)

/-! ## The loop -/

section
variable {I : Type}

/-- The YAMLs with the names of their files, as both `get_slots` and `download_yamls` find them. -/
def namedYamls : List String → List (StoredYaml I) → List (String × StoredYaml I)
  | _, [] => []
  | emittedNames, yaml :: rest =>
    let originalFileName := fileName emittedNames (sanitizeYamlName yaml.playerName)
    (originalFileName, yaml) :: namedYamls (toLowercase originalFileName :: emittedNames) rest

lemma downloadYamls_eq (emittedNames : List String) (yamls : List (StoredYaml I)) :
    downloadYamls emittedNames yamls =
      (namedYamls emittedNames yamls).map fun file => (file.1, file.2.currentContent) := by
  induction yamls generalizing emittedNames with
  | nil => rfl
  | cons yaml rest ih =>
    rw [downloadYamls, namedYamls, List.map_cons, ih]

lemma withFileNames_eq (emittedNames : List String) (yamls : List (StoredYaml I)) :
    withFileNames emittedNames (yamls.map (·.withoutContent)) =
      (namedYamls emittedNames yamls).map fun file => (file.1, file.2.id) := by
  induction yamls generalizing emittedNames with
  | nil => rfl
  | cons yaml rest ih =>
    rw [List.map_cons, withFileNames, namedYamls, List.map_cons, ← ih]
    rfl

lemma namedYamls_snd (emittedNames : List String) (yamls : List (StoredYaml I)) :
    (namedYamls emittedNames yamls).map Prod.snd = yamls := by
  induction yamls generalizing emittedNames with
  | nil => rfl
  | cons yaml rest ih => rw [namedYamls, List.map_cons, ih]

/-- Each name is that of its YAML. -/
lemma of_mem_namedYamls {emittedNames : List String} {yamls : List (StoredYaml I)} {file : String × StoredYaml I}
    (mem : file ∈ namedYamls emittedNames yamls) :
    file.2 ∈ yamls ∧ ∃ emitted, file.1 = fileName emitted (sanitizeYamlName file.2.playerName) := by
  induction yamls generalizing emittedNames with
  | nil => cases mem
  | cons yaml rest ih =>
    rcases List.mem_cons.mp mem with rfl | mem
    · exact ⟨List.mem_cons_self, emittedNames, rfl⟩
    · obtain ⟨there, named⟩ := ih mem
      exact ⟨List.mem_cons_of_mem _ there, named⟩

/-- No two files have the same name, in any case of letters. -/
lemma namedYamls_nodup (yamls : List (StoredYaml I)) :
    ((namedYamls [] yamls).map fun file => toLowercase file.1).Nodup := by
  have nodup := (withFileNames_nodup [] (yamls.map (·.withoutContent))).1
  rw [withFileNames_eq, List.map_map] at nodup
  exact nodup

omit I in
lemma eq_dot_of_toLower {c : Char} (dot : c.toLower = '.') : c = '.' := by
  by_cases upper : c.val ≥ ('A' : Char).val ∧ c.val ≤ ('Z' : Char).val
  case pos =>
    have lower : c.toLower.val = c.val + 32 := congrArg Char.val (dif_pos upper)
    have value : c.val + 32 = 46 := lower.symm.trans (congrArg Char.val dot)
    have low : 65 ≤ c.toNat := upper.1
    have high : c.toNat ≤ 90 := upper.2
    have sum := congrArg UInt32.toNat value
    rw [UInt32.toNat_add] at sum
    simp at sum
    omega
  case neg =>
    have same : c.toLower = c := dif_neg upper
    exact same.symm.trans dot

omit I in
/-- Lowercasing makes no dot. -/
lemma head_of_toLowercase {s : String} (dot : (toLowercase s).toList.head? = some '.') :
    s.toList.head? = some '.' := by
  rw [toLowercase, String.toList_ofList, List.head?_map] at dot
  obtain ⟨c, head, isDot⟩ := Option.map_eq_some_iff.mp dot
  rw [head, eq_dot_of_toLower isDot]

/-- A YAML without a name is passed over: its file, or that of one before, starts with a dot. -/
lemma dot_of_empty {emittedNames : List String} {yamls : List (StoredYaml I)} (free : ".yaml" ∉ emittedNames)
    {yaml : StoredYaml I} (mem : yaml ∈ yamls) (empty : yaml.playerName = "") :
    ∃ file ∈ namedYamls emittedNames yamls, file.1.toList.head? = some '.' := by
  induction yamls generalizing emittedNames with
  | nil => cases mem
  | cons first rest ih =>
    rcases eq_or_ne first.playerName "" with noName | hasName
    · refine ⟨_, List.mem_cons_self, ?_⟩
      have isFree : emittedNames.contains (toLowercase ("" ++ ".yaml")) = false := by
        rw [← Bool.not_eq_true, List.contains_iff_mem]
        exact free
      have name : fileName emittedNames (sanitizeYamlName first.playerName) = "" ++ ".yaml" := by
        rw [noName, show sanitizeYamlName "" = "" by decide, fileName]
        simp only [isFree]
        rfl
      dsimp only
      rw [name]
      decide
    · have there := (List.mem_cons.mp mem).resolve_left fun e => hasName (e ▸ empty)
      have other : ".yaml" ≠ toLowercase (fileName emittedNames (sanitizeYamlName first.playerName)) := by
        intro same
        refine head_fileName_sanitized emittedNames hasName (head_of_toLowercase ?_)
        rw [← same]
        decide
      obtain ⟨file, isFile, dot⟩ := ih (List.not_mem_cons_of_ne_of_not_mem other free) there
      exact ⟨file, List.mem_cons_of_mem _ isFile, dot⟩

end

/-! ## The extraction -/

lemma extractAll_append {folder : Folder} {entries : List (String × String)}
    (ok : ∀ file ∈ entries, FileNameOk file.1) (nodup : ((folder ++ entries).map Prod.fst).Nodup) :
    extractAll folder entries = some (folder ++ entries) := by
  induction entries generalizing folder with
  | nil => rw [extractAll, List.append_nil]
  | cons file rest ih =>
    have new : folder.filter (fun other => other.1 ≠ file.1) = folder := by
      refine List.filter_eq_self.mpr fun other mem => decide_eq_true fun same => ?_
      rw [List.map_append, List.map_cons, List.nodup_append] at nodup
      exact nodup.2.2 _ (List.mem_map_of_mem mem) _ List.mem_cons_self same
    rw [extractAll, Folder.write, if_pos (ok file List.mem_cons_self), new, Option.bind_some]
    rw [List.append_cons folder file rest] at nodup ⊢
    exact ih (fun file mem => ok file (List.mem_cons_of_mem _ mem)) nodup

/-- What can be extracted has names that files can have. -/
lemma ok_of_extractAll {folder : Folder} {entries : List (String × String)}
    (extracts : (extractAll folder entries).isSome = true) : ∀ file ∈ entries, FileNameOk file.1 := by
  induction entries generalizing folder with
  | nil => exact fun file mem => by cases mem
  | cons file rest ih =>
    rw [extractAll, Folder.write] at extracts
    split at extracts
    case isTrue ok =>
      rw [Option.bind_some] at extracts
      exact List.forall_mem_cons.mpr ⟨ok, ih extracts⟩
    case isFalse => cases extracts

section
variable {S C I : Type} [DecidableEq S] [LinearOrder I] {lib : MetaLib S C}

omit [LinearOrder I] in
/-- The archive of YAMLs whose files can have their names is extracted as it is. -/
lemma extractAll_downloadYamls {yamls : List (StoredYaml I)}
    (ok : ∀ file ∈ namedYamls [] yamls, FileNameOk file.1) :
    extractAll [] (downloadYamls [] yamls) = some (downloadYamls [] yamls) := by
  have nodup : ((downloadYamls [] yamls).map Prod.fst).Nodup := by
    rw [downloadYamls_eq, List.map_map]
    exact List.Nodup.of_map toLowercase (by rw [List.map_map]; exact namedYamls_nodup yamls)
  refine extractAll_append (fun file mem => ?_) nodup
  rw [downloadYamls_eq] at mem
  obtain ⟨named, there, rfl⟩ := List.mem_map.mp mem
  exact ok named there

omit [LinearOrder I] in
/-- What `handle_job` adds to the extracted files is the meta file. -/
lemma playersFolder_cases {folder extracted : Folder} {entries : List (String × String)} {loads : Bool}
    {metaFile : Option String} (extracts : extractAll [] entries = some extracted)
    (calls : lib.playersFolder entries loads metaFile = some folder) :
    folder = extracted ∨ ∃ content, folder = extracted.filter (fun file => file.1 ≠ "meta.yaml") ++
      [("meta.yaml", content)] := by
  rw [MetaLib.playersFolder, extracts] at calls
  cases loads with
  | false => cases calls
  | true =>
    cases metaFile with
    | none => exact .inl (Option.some.inj calls).symm
    | some text =>
      rcases eq_or_ne text "" with rfl | hasText
      · exact .inl (Option.some.inj calls).symm
      · have written : (lib.safeLoad text).bind (fun sections =>
            extracted.write "meta.yaml" (lib.dump (lib.filteredMeta sections))) = some folder := by
          simpa [hasText] using calls
        obtain ⟨sections, _, written⟩ := Option.bind_eq_some_iff.mp written
        rw [Folder.write] at written
        split at written
        · exact .inr ⟨_, (Option.some.inj written).symm⟩
        · cases written

omit [DecidableEq S] in
/-- What Archipelago reads of the files of YAMLs is in the order of the slots. -/
lemma archipelagoFiles_order {yamls : List (StoredYaml I)} (ids : (yamls.map (·.id)).Nodup)
    (dots : ∀ file ∈ namedYamls [] yamls, file.1.toList.head? ≠ some '.') {folder : Folder}
    (players : folder.filter (fun file => file.1 ≠ "meta.yaml") = downloadYamls [] yamls) :
    (archipelagoFiles folder).map some = (getSlots (yamls.map (·.withoutContent))).map fun slot =>
      (yamls.find? fun yaml => yaml.id = slot.2).map fun yaml => (slot.1, yaml.currentContent) := by
  have both : (folder.filter fun file => file.1 ≠ "meta.yaml" && file.1.toList.head? != some '.') =
      (folder.filter fun file => file.1 ≠ "meta.yaml").filter fun file => file.1.toList.head? != some '.' := by
    rw [List.filter_filter]
    exact List.filter_congr fun file _ => Bool.and_comm _ _
  have read : (downloadYamls [] yamls).filter (fun file => file.1.toList.head? != some '.') =
      (namedYamls [] yamls).map fun file => (file.1, file.2.currentContent) := by
    rw [downloadYamls_eq]
    refine List.filter_eq_self.mpr fun file mem => bne_iff_ne.mpr ?_
    obtain ⟨named, there, rfl⟩ := List.mem_map.mp mem
    exact dots named there
  have sorted : ∀ {B : Type} (f : StoredYaml I → B),
      ((namedYamls [] yamls).map fun file => (file.1, f file.2)).insertionSort
          (fun a b => toLowercase a.1 ≤ toLowercase b.1) =
        ((namedYamls [] yamls).insertionSort fun a b => toLowercase a.1 ≤ toLowercase b.1).map
          fun file => (file.1, f file.2) :=
    fun f => (List.map_insertionSort _ _ (fun file : String × StoredYaml I => (file.1, f file.2)) _
      fun _ _ _ _ => Iff.rfl).symm
  rw [archipelagoFiles, both, players, read, getSlots, withFileNames_eq, sorted, sorted, List.map_map, List.map_map]
  refine List.map_congr_left fun file mem => ?_
  have there := (of_mem_namedYamls ((List.mem_insertionSort _).mp mem)).1
  have found : yamls.find? (fun yaml => yaml.id = file.2.id) = some file.2 := find_key ids there
  rw [Function.comp_apply, Function.comp_apply, found, Option.map_some]

/-- A room that uploads and deletions lead to is generated as a whole exactly if its YAMLs all have names, and
none has a file whose name is too long. -/
theorem everyYamlGenerated_iff {db : LobbyTables I} (reached : Reached db) (roomId : I) :
    db.EveryYamlGenerated lib roomId ↔
      (∀ yaml ∈ db.yamlsForRoom roomId, yaml.playerName ≠ "") ∧
        ∀ slot ∈ getSlots ((db.yamlsForRoom roomId).map (·.withoutContent)), slot.1.utf8ByteSize ≤ 255 := by
  have well := reached.wellNamed
  rw [LobbyTables.EveryYamlGenerated]
  have ofRoom : ∀ yaml ∈ db.yamlsForRoom roomId, yaml ∈ db.yamls :=
    fun yaml mem => (LobbyTables.mem_yamlsForRoom.mp mem).1
  have ids := well.roomIds roomId
  generalize db.yamlsForRoom roomId = yamls at *
  -- the names of the slots are those of the files
  have short_iff : (∀ slot ∈ getSlots (yamls.map (·.withoutContent)), slot.1.utf8ByteSize ≤ 255) ↔
      ∀ file ∈ namedYamls [] yamls, file.1.utf8ByteSize ≤ 255 := by
    rw [getSlots, withFileNames_eq]
    constructor
    · exact fun short file mem => short _ ((List.mem_insertionSort _).mpr (List.mem_map_of_mem mem))
    · intro short slot mem
      obtain ⟨file, there, rfl⟩ := List.mem_map.mp ((List.mem_insertionSort _).mp mem)
      exact short file there
  rw [short_iff]
  constructor
  · rintro ⟨extracts, holds⟩
    have ok := ok_of_extractAll extracts
    obtain ⟨folder, extracted⟩ := Option.isSome_iff_exists.mp extracts
    have holds := holds true none folder (by rw [MetaLib.playersFolder, extracted]; rfl)
    have okNamed : ∀ file ∈ namedYamls [] yamls, FileNameOk file.1 := fun file mem =>
      ok (file.1, file.2.currentContent) (by rw [downloadYamls_eq]; exact List.mem_map.mpr ⟨file, mem, rfl⟩)
    refine ⟨fun yaml mem empty => ?_, fun file mem => (okNamed file mem).2.1⟩
    obtain ⟨file, there, dot⟩ := dot_of_empty List.not_mem_nil mem empty
    rw [extractAll_downloadYamls okNamed] at extracted
    obtain rfl := Option.some.inj extracted
    refine holds.noDot (file.1, file.2.currentContent) ?_ dot
    rw [downloadYamls_eq]
    exact List.mem_map.mpr ⟨file, there, rfl⟩
  · rintro ⟨named, short⟩
    have dots : ∀ file ∈ namedYamls [] yamls, file.1.toList.head? ≠ some '.' := by
      intro file mem
      obtain ⟨there, emitted, isName⟩ := of_mem_namedYamls mem
      rw [isName]
      exact head_fileName_sanitized emitted (named _ there)
    have noMeta : ∀ file ∈ downloadYamls [] yamls, file.1 ≠ "meta.yaml" := by
      intro file mem
      rw [downloadYamls_eq] at mem
      obtain ⟨file, isFile, rfl⟩ := List.mem_map.mp mem
      obtain ⟨there, emitted, isName⟩ := of_mem_namedYamls isFile
      dsimp only
      rw [isName]
      exact fileName_ne_meta emitted (well.accepted _ (ofRoom _ there))
    have ok : ∀ file ∈ namedYamls [] yamls, FileNameOk file.1 := by
      intro file mem
      have isShort := short file mem
      obtain ⟨there, emitted, isName⟩ := of_mem_namedYamls mem
      rw [isName] at isShort ⊢
      exact (fileNameOk_iff emitted (well.noNul _ (ofRoom _ there))).mpr isShort
    have extracted := extractAll_downloadYamls ok
    refine ⟨by rw [extracted]; rfl, fun loads metaFile folder calls => ?_⟩
    have kept : (downloadYamls [] yamls).filter (fun file => file.1 ≠ "meta.yaml") = downloadYamls [] yamls :=
      List.filter_eq_self.mpr fun file mem => decide_eq_true (noMeta file mem)
    have nodup : ((downloadYamls [] yamls).map Prod.fst).Nodup := by
      rw [downloadYamls_eq, List.map_map]
      exact List.Nodup.of_map toLowercase (by rw [List.map_map]; exact namedYamls_nodup yamls)
    have contents : (downloadYamls [] yamls).map Prod.snd = yamls.map (·.currentContent) := by
      conv_rhs => rw [← namedYamls_snd [] yamls]
      rw [downloadYamls_eq, List.map_map, List.map_map]
      rfl
    have noDot : ∀ file ∈ downloadYamls [] yamls, file.1.toList.head? ≠ some '.' := by
      intro file mem
      rw [downloadYamls_eq] at mem
      obtain ⟨file, isFile, rfl⟩ := List.mem_map.mp mem
      exact dots file isFile
    rcases playersFolder_cases extracted calls with rfl | ⟨content, rfl⟩
    · exact ⟨nodup, by rw [kept, contents], noDot, archipelagoFiles_order ids dots kept⟩
    · have players : ((downloadYamls [] yamls).filter (fun file => file.1 ≠ "meta.yaml") ++
          [("meta.yaml", content)]).filter (fun file => file.1 ≠ "meta.yaml") = downloadYamls [] yamls := by
        rw [kept, List.filter_append, kept]
        exact List.append_nil _
      refine ⟨?_, by rw [players, contents], fun file mem => ?_, archipelagoFiles_order ids dots players⟩
      · rw [kept, List.map_append, List.nodup_append]
        refine ⟨nodup, List.nodup_singleton _, fun name mem other isMeta => ?_⟩
        obtain ⟨file, there, rfl⟩ := List.mem_map.mp mem
        rw [List.mem_singleton.mp isMeta]
        exact noMeta file there
      · rw [kept] at mem
        rcases List.mem_append.mp mem with there | isMeta
        · exact noDot file there
        · rw [List.mem_singleton.mp isMeta]
          dsimp only
          decide

end

/-- One open room. -/
def openRoom : LobbyTables ℕ := ⟨[⟨1, 10, false, false, none, []⟩], []⟩

/-- A user uploads one YAML with the name. -/
def uploadNamed (name : String) : Except String (LobbyTables ℕ) :=
  openRoom.uploadYaml 1 ⟨false, some 30⟩ (fun _ => .ok ()) false
    [⟨5, "game: Clique", ⟨.name "Clique", name⟩⟩] 7

/-- The room with the YAML. -/
def roomWith (name : String) : LobbyTables ℕ :=
  { openRoom with yamls := [⟨5, 7, 1, 30, name, "game: Clique", none⟩] }

/-- A meta file that cannot be read. -/
def noMetaLib : MetaLib String String :=
  ⟨fun _ => none, fun _ => "", "meta_description", "meta file", fun _ => false⟩

/-- A YAML without a name is taken, and its file is passed over. -/
theorem nameless_yaml_passed_over : Reached (roomWith "") ∧ ¬ (roomWith "").EveryYamlGenerated noMetaLib 1 := by
  constructor
  · exact .upload (.empty _) trivial (show uploadNamed "" = .ok (roomWith "") from rfl)
  · intro ⟨_, holds⟩
    have holds := holds true none [(".yaml", "game: Clique")] (by decide)
    exact absurd (by decide) (holds.noDot _ List.mem_cons_self)

theorem named_yaml_generated : (roomWith "Bob").EveryYamlGenerated noMetaLib 1 :=
  (everyYamlGenerated_iff (.upload (.empty _) trivial (show uploadNamed "Bob" = .ok (roomWith "Bob") from rfl)) 1).mpr
    (by decide)

end ArchipelagoXL.Lobby
