import ArchipelagoXL.Lib.IndexMap
import ArchipelagoXL.Lib.Pointwise
import ArchipelagoXL.Lib.Trimming
import ArchipelagoXL.Lobby.ManualUpload

/-!
# The upload script

The owner of a server can upload a generation with a script (`upload-room-gen.py`). Like the lobby it matches the
patches of the archive to the YAMLs of the room by the numbers in their names. The lobby numbers the YAMLs by the names
of their files. The script sorts the names of the players, as the database prints them, and writes a patch to every
YAML with the name at its number.

Both give each YAML the same patch exactly if the name of the YAML in the slot of each patch is nobody else's and stands
at the number of the slot among the printed names (`uploadScript_ties_iff`).
-/

namespace ArchipelagoXL.Lobby.UploadScript

open Lowercase (CaseTables)
open Ranks (sortBy)
open Trimming (trimmed)

/-! ## The patterns -/

def isSeparator (c : Char) : Bool := c == '_' || c == '-'

/-- `[-_]P([0-9]+)[-_]` at the start of a text: the digits, and what is left. -/
def slotPart : List Char → Option (List Char × List Char)
  | c :: 'P' :: rest =>
    match rest.dropWhile Char.isDigit with
    | d :: left =>
      if isSeparator c ∧ rest.takeWhile Char.isDigit ≠ [] ∧ isSeparator d then some (rest.takeWhile Char.isDigit, left)
      else none
    | [] => none
  | _ => none

/-- `AP_PATCH_RE` at the start of a text; a dot does not match a new line. -/
def apPatchReAt : List Char → Option (List Char)
  | 'A' :: 'P' :: c :: rest =>
    if isSeparator c ∧ rest.takeWhile Char.isDigit ≠ [] then
      match slotPart (rest.dropWhile Char.isDigit) with
      | some (digits, left) => if '.' ∈ left.takeWhile (· != '\n') then some digits else none
      | none => none
    else none
  | _ => none

/-- The `pattern` of the script at the start of a text. -/
def patternAt (seed : List Char) : List Char → Option (List Char)
  | 'A' :: 'P' :: c :: rest =>
    if isSeparator c ∧ seed.isPrefixOf rest then (slotPart (rest.drop seed.length)).map Prod.fst else none
  | _ => none

/-- What is captured where a pattern matches first. -/
def firstMatch (matchAt : List Char → Option (List Char)) : List Char → Option (List Char)
  | [] => matchAt []
  | c :: rest => (matchAt (c :: rest)).or (firstMatch matchAt rest)

/-! ## The script -/

/-- Python `str.isspace`, for a character. -/
def isSpace (c : Char) : Bool :=
  let n := c.toNat
  (0x09 ≤ n && n ≤ 0x0d) || (0x1c ≤ n && n ≤ 0x20) || n == 0x85 || n == 0xa0 || n == 0x1680 ||
    (0x2000 ≤ n && n ≤ 0x200a) || n == 0x2028 || n == 0x2029 || n == 0x202f || n == 0x205f || n == 0x3000

/-- The characters at which Python `str.splitlines` splits. -/
def isLineBreak (c : Char) : Bool :=
  let n := c.toNat
  (0x0a ≤ n && n ≤ 0x0d) || (0x1c ≤ n && n ≤ 0x1e) || n == 0x85 || n == 0x2028 || n == 0x2029

/-- What becomes of the ends of lines when a text is read. -/
def universalNewlines : List Char → List Char
  | '\r' :: '\n' :: rest => '\n' :: universalNewlines rest
  | '\r' :: rest => '\n' :: universalNewlines rest
  | c :: rest => c :: universalNewlines rest
  | [] => []

/-- Python `str.splitlines`, of a text without carriage returns; the line so far is reversed. -/
def splitLinesFrom (current : List Char) : List Char → List (List Char)
  | [] => if current = [] then [] else [current.reverse]
  | c :: rest => if isLineBreak c then current.reverse :: splitLinesFrom [] rest else splitLinesFrom (c :: current) rest

/-- Python `run_postgres_list_command`, on rows of one text. -/
def printedNames (rows : List String) : List String :=
  let stdout := rows.flatMap fun name => name.toList ++ ['\n']
  (splitLinesFrom [] (trimmed isSpace (universalNewlines stdout))).map String.ofList

/-- Python `os.path.basename`. -/
def basename (path : List Char) : List Char := (path.reverse.takeWhile (· != '/')).reverse

def archipelagoExtension : List Char := ".archipelago".toList

/-- The `archipelago_prefix`, if it isn't empty. -/
def archipelagoPrefix (names : List String) : Option (List Char) := do
  let name ← names.find? fun name => archipelagoExtension.isSuffixOf name.toList
  let archipelagoPrefix := name.toList.take (name.toList.length - archipelagoExtension.length)
  if archipelagoPrefix = [] then none else some archipelagoPrefix

/-- The `seed`. -/
def seedOf (archipelagoPrefix : List Char) : List Char :=
  match basename archipelagoPrefix with
  | 'A' :: 'P' :: c :: rest => if isSeparator c then rest else 'A' :: 'P' :: c :: rest
  | base => base

/-- The slot number in the name of an entry. -/
def slotNum (seed : List Char) (name : String) : Option ℕ :=
  (firstMatch (patternAt seed) (basename name.toList)).map slotValue

/-- The turn of the loop that gathers the `patch_files`. -/
def gatherPatch (seed : List Char) (patchFiles : List (ℕ × String)) (name : String) : List (ℕ × String) :=
  match slotNum seed name with
  | some slot => IndexMap.put slot (String.ofList (basename name.toList)) patchFiles
  | none => patchFiles

/-- The `patch_files`. -/
def patchFiles (seed : List Char) (names : List String) : List (ℕ × String) := names.foldl (gatherPatch seed) []

/-- Python `player_names[slot_num - 1]`; before the first comes the last. -/
def playerAt (playerNames : List String) (slot : ℕ) : Option String :=
  if slot = 0 then playerNames.getLast? else playerNames[slot - 1]?

/-- The `values` of the update: names and patches. -/
def scriptValues (tables : CaseTables) (names rows : List String) : Option (List (String × String)) := do
  let archipelagoPrefix ← archipelagoPrefix names
  let playerNames := sortBy tables.toLowercase (printedNames rows)
  (patchFiles (seedOf archipelagoPrefix) names).mapM fun file =>
    (playerAt playerNames file.1).map fun name => (name, file.2)

/-- What an update may make of the patch of a YAML, which was reset before: of several values with its name the
database takes any. -/
inductive Updated (values : List (String × String)) (name : String) : Option String → Prop where
  | set {patch : String} (mem : (name, patch) ∈ values) : Updated values name (some patch)
  | left (others : ∀ v ∈ values, v.1 ≠ name) : Updated values name none

/-! ## The pattern of the lobby -/

lemma slotPart_digits {l digits left : List Char} (found : slotPart l = some (digits, left)) :
    digits ≠ [] ∧ ∀ c ∈ digits, c.isDigit = true := by
  rw [slotPart.eq_def] at found
  split at found
  case h_1 rest =>
    split at found
    case h_1 =>
      split at found
      case isTrue is =>
        cases found
        exact ⟨is.2.1, fun c mem => List.mem_takeWhile_imp mem⟩
      case isFalse => cases found
    case h_2 => cases found
  case h_2 => cases found

lemma apPatchReAt_digits {l digits : List Char} (found : apPatchReAt l = some digits) :
    digits ≠ [] ∧ ∀ c ∈ digits, c.isDigit = true := by
  rw [apPatchReAt.eq_def] at found
  split at found
  case h_1 =>
    split at found
    case isTrue =>
      split at found
      case h_1 slot =>
        split at found
        case isTrue =>
          cases found
          exact slotPart_digits slot
        case isFalse => cases found
      case h_2 => cases found
    case isFalse => cases found
  case h_2 => cases found

lemma firstMatch_imp {matchAt : List Char → Option (List Char)} {P : List Char → Prop}
    (imp : ∀ l found, matchAt l = some found → P found) {l found : List Char} (first : firstMatch matchAt l = some found) :
    P found := by
  induction l with
  | nil => exact imp [] found first
  | cons c rest ih =>
    rw [firstMatch, Option.or_eq_some_iff] at first
    rcases first with here | ⟨_, later⟩
    · exact imp _ found here
    · exact ih later

/-- Rust `AP_PATCH_RE`. -/
def apPatchRe : PatchRe where
  captures name := firstMatch apPatchReAt name.toList
  digits is := firstMatch_imp (fun _ _ => apPatchReAt_digits) is

example : apPatchRe.captures "AP-17_P12-Sam.apz5" = some ['1', '2'] := by decide

/-! ## Archives -/

/-- The patch of a slot. -/
structure PatchEntry where
  number : ℕ
  text : List Char
  extension : List Char
deriving DecidableEq

def PatchEntry.name (seed : List Char) (p : PatchEntry) : String :=
  String.ofList ('A' :: 'P' :: '_' :: (seed ++ '_' :: 'P' ::
    ((toString p.number).toList ++ '_' :: (p.text ++ '.' :: p.extension))))

def archipelagoEntry (seed : List Char) : String := String.ofList ('A' :: 'P' :: '_' :: (seed ++ archipelagoExtension))

/-- The archive of a generation for some number of YAMLs. -/
structure GenZip (players : ℕ) where
  seed : List Char
  patches : List PatchEntry
  others : List String
  names : List String
  seed_some : seed ≠ []
  seed_digits : ∀ c ∈ seed, c.isDigit = true
  listed : names.Perm (archipelagoEntry seed :: patches.map (PatchEntry.name seed) ++ others)
  numbers : (patches.map PatchEntry.number).Nodup
  within : ∀ p ∈ patches, 0 < p.number ∧ p.number ≤ players
  oneLine : ∀ p ∈ patches, '\n' ∉ p.text
  atRoot : ∀ name ∈ names, '/' ∉ name.toList
  oneArchipelago : ∀ name ∈ names, archipelagoExtension.isSuffixOf name.toList = true → name = archipelagoEntry seed
  others_ascii : ∀ name ∈ others, ∀ c ∈ name.toList, c.toNat < 128
  others_unmatched : ∀ name ∈ others,
    firstMatch apPatchReAt name.toList = none ∧ firstMatch (patternAt seed) name.toList = none

/-! ## The numbers of the entries -/

lemma takeWhile_digits {digits : List Char} (all : ∀ c ∈ digits, c.isDigit = true) {d : Char} (stop : d.isDigit = false)
    (left : List Char) : (digits ++ d :: left).takeWhile Char.isDigit = digits := by
  rw [List.takeWhile_append_of_pos all, List.takeWhile_cons_of_neg (by rw [stop]; decide), List.append_nil]

lemma dropWhile_digits {digits : List Char} (all : ∀ c ∈ digits, c.isDigit = true) {d : Char} (stop : d.isDigit = false)
    (left : List Char) : (digits ++ d :: left).dropWhile Char.isDigit = d :: left := by
  rw [List.dropWhile_append_of_pos all, List.dropWhile_cons_of_neg (by rw [stop]; decide)]

lemma slotPart_eq {digits : List Char} (some : digits ≠ []) (all : ∀ c ∈ digits, c.isDigit = true) (left : List Char) :
    slotPart ('_' :: 'P' :: (digits ++ '_' :: left)) = .some (digits, left) := by
  have stop : ('_' : Char).isDigit = false := by decide
  simp only [slotPart]
  rw [dropWhile_digits all stop, takeWhile_digits all stop]
  exact if_pos ⟨by decide, some, by decide⟩

lemma firstMatch_of_start {matchAt : List Char → Option (List Char)} {l found : List Char}
    (here : matchAt l = some found) : firstMatch matchAt l = some found := by
  cases l with
  | nil => exact here
  | cons c rest => rw [firstMatch, here, Option.some_or]

/-- Both patterns start with a letter. -/
lemma firstMatch_eq_none {matchAt : List Char → Option (List Char)} {l : List Char}
    (starts : ∀ l, 'A' ∉ l.head? → matchAt l = none) (without : 'A' ∉ l) : firstMatch matchAt l = none := by
  induction l with
  | nil => exact starts [] (by decide)
  | cons c rest ih =>
    obtain ⟨here, later⟩ := List.ne_and_not_mem_of_not_mem_cons without
    rw [firstMatch, ih later, Option.or_none]
    refine starts _ fun mem => here ?_
    exact (Option.some.inj mem).symm

lemma apPatchReAt_starts (l : List Char) (other : 'A' ∉ l.head?) : apPatchReAt l = none := by
  rw [apPatchReAt.eq_def]
  split
  case h_1 => exact absurd rfl other
  case h_2 => rfl

lemma patternAt_starts (seed l : List Char) (other : 'A' ∉ l.head?) : patternAt seed l = none := by
  rw [patternAt.eq_def]
  split
  case h_1 => exact absurd rfl other
  case h_2 => rfl

lemma slotPart_archipelago : slotPart archipelagoExtension = none := by decide

lemma toString_some (n : ℕ) : (toString n).toList ≠ [] := by
  rw [show (toString n).toList = Nat.toDigits 10 n from Nat.toList_repr]
  exact Nat.toDigits_ne_nil

lemma toString_digits (n : ℕ) : ∀ c ∈ (toString n).toList, c.isDigit = true := fun _ mem => isDigit_of_mem_toString mem

lemma slotValue_toString (n : ℕ) : slotValue (toString n).toList = n := by
  rw [show (toString n).toList = Nat.toDigits 10 n from Nat.toList_repr, slotValue]
  exact Nat.ofDigitChars_eq_foldl.symm.trans (Nat.ofDigitChars_toDigits (by decide) (by decide))

section
variable {seed : List Char} (some : seed ≠ []) (all : ∀ c ∈ seed, c.isDigit = true)
include all

lemma dropWhile_archipelago : (seed ++ archipelagoExtension).dropWhile Char.isDigit = archipelagoExtension :=
  dropWhile_digits all (by decide) _

/-- The entry of the generation itself is no patch. -/
lemma notMem_archipelago : 'A' ∉ 'P' :: '_' :: (seed ++ archipelagoExtension) := by
  intro mem
  rcases List.mem_cons.mp mem with letter | mem
  · exact absurd letter (by decide)
  rcases List.mem_cons.mp mem with letter | mem
  · exact absurd letter (by decide)
  rcases List.mem_append.mp mem with mem | mem
  · exact absurd (all _ mem) (by decide)
  · exact absurd mem (by decide)

lemma firstMatch_archipelago {matchAt : List Char → Option (List Char)} (starts : ∀ l, 'A' ∉ l.head? → matchAt l = none)
    (here : matchAt ('A' :: 'P' :: '_' :: (seed ++ archipelagoExtension)) = none) :
    firstMatch matchAt (archipelagoEntry seed).toList = none := by
  rw [archipelagoEntry, String.toList_ofList, firstMatch, here, Option.none_or]
  exact firstMatch_eq_none starts (notMem_archipelago all)

lemma captures_archipelago : apPatchRe.captures (archipelagoEntry seed) = none := by
  apply firstMatch_archipelago all apPatchReAt_starts
  simp only [apPatchReAt]
  rw [dropWhile_archipelago all, slotPart_archipelago]
  exact ite_self _

lemma pattern_archipelago : firstMatch (patternAt seed) (archipelagoEntry seed).toList = none := by
  apply firstMatch_archipelago all (patternAt_starts seed)
  simp only [patternAt]
  rw [List.drop_left, slotPart_archipelago]
  exact ite_self _

include some in
lemma captures_patch (p : PatchEntry) (oneLine : '\n' ∉ p.text) :
    apPatchRe.captures (p.name seed) = .some (toString p.number).toList := by
  apply firstMatch_of_start
  have stop : ('_' : Char).isDigit = false := by decide
  rw [PatchEntry.name, String.toList_ofList]
  simp only [apPatchReAt]
  rw [dropWhile_digits all stop, takeWhile_digits all stop, if_pos ⟨by decide, some⟩,
    slotPart_eq (toString_some _) (toString_digits _)]
  refine if_pos ?_
  rw [List.takeWhile_append_of_pos]
  · simp
  · intro c mem
    rw [bne_iff_ne]
    rintro rfl
    exact oneLine mem

omit all in
lemma pattern_patch (p : PatchEntry) :
    firstMatch (patternAt seed) (p.name seed).toList = .some (toString p.number).toList := by
  apply firstMatch_of_start
  rw [PatchEntry.name, String.toList_ofList]
  simp only [patternAt]
  rw [if_pos ⟨by decide, List.isPrefixOf_iff_prefix.mpr (List.prefix_append _ _)⟩, List.drop_left,
    slotPart_eq (toString_some _) (toString_digits _)]
  rfl

end

/-! ## What is found in an archive -/

lemma basename_of_root {name : List Char} (root : '/' ∉ name) : basename name = name := by
  have all : name.reverse.takeWhile (· != '/') = name.reverse := by
    rw [List.takeWhile_eq_self_iff]
    intro c mem
    rw [bne_iff_ne]
    rintro rfl
    exact root (List.mem_reverse.mp mem)
  rw [basename, all, List.reverse_reverse]

section
variable {players : ℕ} (zip : GenZip players) {name : String} {k : ℕ}

/-- A name of the patch of a slot. -/
def GenZip.IsPatch (k : ℕ) (name : String) : Prop := ∃ p ∈ zip.patches, p.number = k ∧ name = p.name zip.seed

lemma GenZip.mem_patch {p : PatchEntry} (mem : p ∈ zip.patches) : p.name zip.seed ∈ zip.names :=
  zip.listed.mem_iff.mpr (List.mem_append_left _ (List.mem_cons_of_mem _ (List.mem_map_of_mem mem)))

lemma GenZip.captures_patch {p : PatchEntry} (mem : p ∈ zip.patches) :
    apPatchRe.captures (p.name zip.seed) = some (toString p.number).toList :=
  UploadScript.captures_patch zip.seed_some zip.seed_digits p (zip.oneLine p mem)

/-- An entry is a patch, or no pattern matches it. -/
lemma GenZip.entry_cases (mem : name ∈ zip.names) : (∃ p ∈ zip.patches, name = p.name zip.seed) ∨
    apPatchRe.captures name = none ∧ firstMatch (patternAt zip.seed) name.toList = none := by
  rcases List.mem_append.mp (zip.listed.mem_iff.mp mem) with mem | other
  · rcases List.mem_cons.mp mem with rfl | patch
    · exact .inr ⟨captures_archipelago zip.seed_digits, pattern_archipelago zip.seed_digits⟩
    · obtain ⟨p, memP, rfl⟩ := List.mem_map.mp patch
      exact .inl ⟨p, memP, rfl⟩
  · exact .inr (zip.others_unmatched name other)

lemma GenZip.number_of_name {p : PatchEntry} (mem : p ∈ zip.patches) (patch : zip.IsPatch k (p.name zip.seed)) :
    p.number = k := by
  obtain ⟨p', mem', rfl, same⟩ := patch
  have digits := (zip.captures_patch mem).symm.trans (same ▸ zip.captures_patch mem')
  rw [← slotValue_toString p.number, Option.some.inj digits, slotValue_toString]

lemma GenZip.isPatch_unique {name' : String} (patch : zip.IsPatch k name) (patch' : zip.IsPatch k name') :
    name = name' := by
  obtain ⟨p, mem, number, rfl⟩ := patch
  obtain ⟨p', mem', number', rfl⟩ := patch'
  rw [List.inj_on_of_nodup_map zip.numbers mem mem' (number.trans number'.symm)]

lemma GenZip.carries_iff (mem : name ∈ zip.names) : apPatchRe.carries k name = true ↔ zip.IsPatch k name := by
  rcases zip.entry_cases mem with ⟨p, memP, rfl⟩ | ⟨unmatched, _⟩
  · rw [PatchRe.carries, zip.captures_patch memP, Option.any_some, slotValue_toString, decide_eq_true_iff]
    exact ⟨fun number => ⟨p, memP, number, rfl⟩, fun patch => zip.number_of_name memP patch⟩
  · rw [PatchRe.carries, unmatched]
    refine iff_of_false Bool.false_ne_true ?_
    rintro ⟨p, memP, _, rfl⟩
    rw [zip.captures_patch memP] at unmatched
    cases unmatched

lemma GenZip.slotNum_iff (mem : name ∈ zip.names) : slotNum zip.seed name = some k ↔ zip.IsPatch k name := by
  rw [slotNum, basename_of_root (zip.atRoot name mem)]
  rcases zip.entry_cases mem with ⟨p, memP, rfl⟩ | ⟨unmatched, unmatched'⟩
  · rw [pattern_patch, Option.map_some, slotValue_toString, Option.some_inj]
    exact ⟨fun number => ⟨p, memP, number, rfl⟩, fun patch => zip.number_of_name memP patch⟩
  · rw [unmatched']
    refine iff_of_false (by simp) ?_
    rintro ⟨p, memP, _, rfl⟩
    rw [zip.captures_patch memP] at unmatched
    cases unmatched

/-- What is found last is the patch. -/
lemma GenZip.getLast?_eq_some_iff {names : List String} (all : names.Perm zip.names) {q : String → Bool}
    (is : ∀ name ∈ zip.names, q name = true ↔ zip.IsPatch k name) :
    (names.filter q).getLast? = some name ↔ zip.IsPatch k name := by
  constructor
  · intro last
    obtain ⟨mem, found⟩ := List.mem_filter.mp (List.mem_of_getLast? last)
    exact (is name (all.mem_iff.mp mem)).mp found
  · intro patch
    have mem : name ∈ names.filter q := by
      obtain ⟨p, memP, number, rfl⟩ := patch
      exact List.mem_filter.mpr ⟨all.mem_iff.mpr (zip.mem_patch memP), (is _ (zip.mem_patch memP)).mpr ⟨p, memP, number, rfl⟩⟩
    rw [List.getLast?_eq_some_getLast (List.ne_nil_of_mem mem), Option.some_inj]
    obtain ⟨memLast, found⟩ := List.mem_filter.mp (List.getLast_mem (List.ne_nil_of_mem mem))
    exact zip.isPatch_unique ((is _ (all.mem_iff.mp memLast)).mp found) patch

lemma GenZip.archipelagoPrefix_eq : archipelagoPrefix zip.names = some ('A' :: 'P' :: '_' :: zip.seed) := by
  have listed : archipelagoEntry zip.seed ∈ zip.names := zip.listed.mem_iff.mpr (List.mem_append_left _ List.mem_cons_self)
  have text : (archipelagoEntry zip.seed).toList = ('A' :: 'P' :: '_' :: zip.seed) ++ archipelagoExtension :=
    String.toList_ofList
  have isSuffix : archipelagoExtension.isSuffixOf (archipelagoEntry zip.seed).toList = true := by
    rw [List.isSuffixOf_iff_suffix, text]
    exact List.suffix_append _ _
  rw [archipelagoPrefix]
  cases found : zip.names.find? fun name => archipelagoExtension.isSuffixOf name.toList with
  | none => exact absurd isSuffix (List.find?_eq_none.mp found _ listed)
  | some name =>
    have isEntry := List.find?_some found
    obtain rfl := zip.oneArchipelago name (List.mem_of_find?_eq_some found) isEntry
    rw [Option.bind_eq_bind, Option.bind_some, text, List.length_append, Nat.add_sub_cancel, List.take_left]
    rfl

lemma GenZip.seedOf_eq : seedOf ('A' :: 'P' :: '_' :: zip.seed) = zip.seed := by
  have root : '/' ∉ 'A' :: 'P' :: '_' :: zip.seed := by
    intro mem
    simp only [List.mem_cons] at mem
    rcases mem with letter | letter | letter | mem
    · exact absurd letter (by decide)
    · exact absurd letter (by decide)
    · exact absurd letter (by decide)
    · exact absurd (zip.seed_digits _ mem) (by decide)
  rw [seedOf, basename_of_root root]
  rfl

omit zip in
lemma lookup_foldl_gatherPatch (seed : List Char) (names : List String) (files : List (ℕ × String)) (k : ℕ) :
    (names.foldl (gatherPatch seed) files).lookup k =
      (((names.filter fun name => slotNum seed name = some k).getLast?).map fun name =>
        String.ofList (basename name.toList)).or (files.lookup k) := by
  induction names generalizing files with
  | nil => rfl
  | cons name names ih =>
    rw [List.foldl_cons, ih, gatherPatch, List.filter_cons]
    cases slot : slotNum seed name with
    | none => simp
    | some n =>
      dsimp only
      rw [IndexMap.lookup_put]
      by_cases here : n = k
      · subst here
        rw [if_pos rfl, if_pos (decide_eq_true rfl), List.getLast?_cons, Option.map_some]
        cases (names.filter fun name => slotNum seed name = some n).getLast? with
        | none => rfl
        | some last => rfl
      · have other : some n ≠ some k := fun same => here (Option.some.inj same)
        rw [if_neg (Ne.symm here), decide_eq_false other, if_neg Bool.false_ne_true]

omit zip in
lemma nodup_patchFiles (seed : List Char) (names : List String) : ((patchFiles seed names).map Prod.fst).Nodup := by
  suffices from_ : ∀ files : List (ℕ × String), (files.map Prod.fst).Nodup →
      ((names.foldl (gatherPatch seed) files).map Prod.fst).Nodup from from_ [] List.nodup_nil
  induction names with
  | nil => exact fun _ nodup => nodup
  | cons name names ih =>
    intro files nodup
    apply ih
    rw [gatherPatch]
    cases slotNum seed name with
    | none => exact nodup
    | some slot => exact IndexMap.nodup_put nodup

/-- The script gathers the patches by their slots. -/
lemma GenZip.mem_patchFiles : (k, name) ∈ patchFiles zip.seed zip.names ↔ zip.IsPatch k name := by
  rw [← IndexMap.lookup_eq_some_iff (nodup_patchFiles _ _), patchFiles, lookup_foldl_gatherPatch, List.lookup_nil, Option.or_none,
    Option.map_eq_some_iff]
  simp only [zip.getLast?_eq_some_iff (List.Perm.refl _) fun name mem =>
    (decide_eq_true_iff).trans (zip.slotNum_iff mem)]
  have whole {name : String} (patch : zip.IsPatch k name) : String.ofList (basename name.toList) = name := by
    obtain ⟨p, memP, _, rfl⟩ := patch
    rw [basename_of_root (zip.atRoot _ (zip.mem_patch memP)), String.ofList_toList]
  constructor
  · rintro ⟨name, patch, rfl⟩
    rwa [whole patch]
  · exact fun patch => ⟨name, patch, whole patch⟩

end

/-! ## Both matchings -/

section
variable (tables : CaseTables) (overflowChecks : Bool) {I : Type} [DecidableEq I]

/-- A YAML has the slot with a number. -/
def InSlot (roomYamls : List (YamlWithoutContent I)) (yaml : YamlWithoutContent I) (number : ℕ) : Prop :=
  ∃ slots fileName, Numbering.getSlots tables roomYamls.length roomYamls = some slots ∧
    slots[number - 1]? = some (fileName, yaml.id)

/-- After the script each YAML has the patch that the lobby gives it, whichever patches the database takes. -/
def TiesAlike (fileNames names : List String) (roomYamls : List (YamlWithoutContent I)) (rows : List String) : Prop :=
  ∃ association values,
    getYamlsPatchesAssociation apPatchRe tables overflowChecks fileNames roomYamls = .ok association ∧
      scriptValues tables names rows = some values ∧
      ∀ yaml ∈ roomYamls, ∀ patch, Updated values yaml.playerName patch → patch = association yaml.id

/-- The name of a YAML is nobody else's, and stands at a number among the printed names. -/
structure Tied (roomYamls : List (YamlWithoutContent I)) (rows : List String) (yaml : YamlWithoutContent I) (number : ℕ) :
    Prop where
  alone : ∀ other ∈ roomYamls, other.playerName = yaml.playerName → other.id = yaml.id
  place : ∃ j : ℕ, (printedNames rows)[j]? = some yaml.playerName ∧
    (printedNames rows).countP (fun name => tables.toLowercase name < tables.toLowercase yaml.playerName) +
      ((printedNames rows).take j).countP (fun name => tables.toLowercase name = tables.toLowercase yaml.playerName) + 1 =
        number

variable {tables overflowChecks} {roomYamls : List (YamlWithoutContent I)} {yaml : YamlWithoutContent I}

variable (tables) in
omit [DecidableEq I] in
/-- The slots are those of the YAMLs of the room. -/
lemma getSlots_perm (ids : (roomYamls.map (·.id)).Nodup) : ∃ slots,
    Numbering.getSlots tables roomYamls.length roomYamls = some slots ∧
      (slots.map Prod.snd).Perm (roomYamls.map (·.id)) := by
  obtain ⟨slots, ends, numbering, -⟩ := Numbering.getSlots_numbers tables roomYamls ids
  exact ⟨slots, ends _ le_rfl, (List.perm_ext_iff_of_nodup numbering.once ids).mpr numbering.ids⟩

omit [DecidableEq I] in
lemma length_slots {slots : List (String × I)} (perm : (slots.map Prod.snd).Perm (roomYamls.map (·.id))) :
    slots.length = roomYamls.length := by
  have length := perm.length_eq
  rwa [List.length_map, List.length_map] at length

variable (tables) in
omit [DecidableEq I] in
/-- Every YAML has one slot. -/
lemma exists_inSlot (ids : (roomYamls.map (·.id)).Nodup) (mem : yaml ∈ roomYamls) : ∃ n, InSlot tables roomYamls yaml (n + 1) := by
  obtain ⟨slots, resolved, perm⟩ := getSlots_perm tables ids
  obtain ⟨slot, memSlot, same⟩ := List.mem_map.mp (perm.mem_iff.mpr (List.mem_map_of_mem mem))
  obtain ⟨n, place⟩ := List.mem_iff_getElem?.mp memSlot
  exact ⟨n, slots, slot.1, resolved, by rw [Nat.add_sub_cancel, place, ← same]⟩

variable (tables) in
omit [DecidableEq I] in
/-- Every number of a slot is one of a YAML. -/
lemma exists_of_number (ids : (roomYamls.map (·.id)).Nodup) {n : ℕ} (positive : 0 < n) (within : n ≤ roomYamls.length) :
    ∃ yaml ∈ roomYamls, InSlot tables roomYamls yaml n := by
  obtain ⟨slots, resolved, perm⟩ := getSlots_perm tables ids
  have bound : n - 1 < slots.length := by
    rw [length_slots perm]
    omega
  have place := List.getElem?_eq_getElem bound
  obtain ⟨yaml, mem, same⟩ := List.mem_map.mp (perm.mem_iff.mp (List.mem_map_of_mem (List.getElem_mem bound)))
  exact ⟨yaml, mem, slots, slots[n - 1].1, resolved, by rw [place, same]⟩

variable (tables overflowChecks) in
/-- The lobby gives each YAML the patch of its slot. -/
lemma GenZip.association (ids : (roomYamls.map (·.id)).Nodup) (few : roomYamls.length < 2 ^ 64)
    (zip : GenZip roomYamls.length) {fileNames : List String} (all : fileNames.Perm zip.names) :
    ∃ association, getYamlsPatchesAssociation apPatchRe tables overflowChecks fileNames roomYamls = .ok association ∧
      ∀ yaml ∈ roomYamls, ∀ n, InSlot tables roomYamls yaml (n + 1) →
        ∀ name, association yaml.id = some name ↔ zip.IsPatch (n + 1) name := by
  obtain ⟨slots, resolved, perm⟩ := getSlots_perm tables ids
  have fits : ∀ name ∈ fileNames, apPatchRe.Fits overflowChecks name := by
    intro name mem digits captured
    rcases zip.entry_cases (all.mem_iff.mp mem) with ⟨p, memP, rfl⟩ | ⟨unmatched, _⟩
    · rw [zip.captures_patch memP] at captured
      cases captured
      rw [slotValue_toString]
      have within := zip.within p memP
      exact ⟨by omega, fun _ => by omega⟩
    · rw [unmatched] at captured
      cases captured
  obtain ⟨association, ok, last⟩ := associate_ok (perm.nodup_iff.mpr ids) ((length_slots perm).symm ▸ few) fits fun _ => none
  refine ⟨association, ?_, ?_⟩
  · rw [getYamlsPatchesAssociation, resolved]
    exact ok
  · rintro yaml mem n ⟨_, fileName, resolved', place⟩ name
    cases Option.some.inj (resolved.symm.trans resolved')
    rw [last n (fileName, yaml.id) place, Option.or_none]
    exact zip.getLast?_eq_some_iff all fun name mem => zip.carries_iff mem

omit [DecidableEq I] in
lemma InSlot.id_eq {other : YamlWithoutContent I} {n : ℕ} (slot : InSlot tables roomYamls yaml n)
    (slot' : InSlot tables roomYamls other n) : other.id = yaml.id := by
  obtain ⟨_, _, resolved, place⟩ := slot
  obtain ⟨_, _, resolved', place'⟩ := slot'
  cases Option.some.inj (resolved.symm.trans resolved')
  exact congrArg Prod.snd (Option.some.inj (place'.symm.trans place))

omit [DecidableEq I] in
lemma InSlot.congr {other : YamlWithoutContent I} {n : ℕ} (slot : InSlot tables roomYamls yaml n) (same : other.id = yaml.id) :
    InSlot tables roomYamls other n := by
  rw [InSlot, same]
  exact slot

omit [DecidableEq I] in
/-- A name stands at a number among the sorted names. -/
lemma playerAt_iff {names : List String} {name : String} {n : ℕ} :
    playerAt (sortBy tables.toLowercase names) (n + 1) = some name ↔ ∃ j : ℕ, names[j]? = some name ∧
      names.countP (fun name' => tables.toLowercase name' < tables.toLowercase name) +
        (names.take j).countP (fun name' => tables.toLowercase name' = tables.toLowercase name) + 1 = n + 1 := by
  rw [playerAt, if_neg (Nat.succ_ne_zero n), Nat.add_sub_cancel, Ranks.getElem?_sortBy_iff]
  simp only [Nat.add_right_cancel_iff]

section
variable {players : ℕ} (zip : GenZip players) {rows : List String} {values : List (String × String)}

lemma GenZip.scriptValues_eq (tables : CaseTables) (rows : List String) : scriptValues tables zip.names rows =
    (patchFiles zip.seed zip.names).mapM fun file =>
      (playerAt (sortBy tables.toLowercase (printedNames rows)) file.1).map fun name => (name, file.2) := by
  rw [scriptValues, zip.archipelagoPrefix_eq, Option.bind_eq_bind, Option.bind_some, zip.seedOf_eq]

/-- The script writes each patch to the name at its number. -/
lemma GenZip.mem_scriptValues (written : scriptValues tables zip.names rows = some values) {name file : String} :
    (name, file) ∈ values ↔
      ∃ k, zip.IsPatch k file ∧ playerAt (sortBy tables.toLowercase (printedNames rows)) k = some name := by
  rw [zip.scriptValues_eq, Pointwise.mapM_eq_some_iff] at written
  constructor
  · intro mem
    obtain ⟨⟨k, file'⟩, memFile, turn⟩ := Pointwise.exists_left written mem
    obtain ⟨name', place, same⟩ := Option.map_eq_some_iff.mp turn
    cases same
    exact ⟨k, zip.mem_patchFiles.mp memFile, place⟩
  · rintro ⟨k, patch, place⟩
    obtain ⟨value, mem, turn⟩ := Pointwise.exists_right written (zip.mem_patchFiles.mpr patch)
    rw [place] at turn
    cases turn
    exact mem

/-- The script writes something if there is a name at each number. -/
lemma GenZip.exists_scriptValues (tables : CaseTables) (rows : List String) (each : ∀ p ∈ zip.patches,
    ∃ name, playerAt (sortBy tables.toLowercase (printedNames rows)) p.number = some name) :
    ∃ values, scriptValues tables zip.names rows = some values := by
  have turns : ∀ file ∈ patchFiles zip.seed zip.names, ∃ value,
      (playerAt (sortBy tables.toLowercase (printedNames rows)) file.1).map (fun name => (name, file.2)) = some value ∧
        True := by
    rintro ⟨k, file⟩ mem
    obtain ⟨p, memP, rfl, rfl⟩ := zip.mem_patchFiles.mp mem
    obtain ⟨name, place⟩ := each p memP
    exact ⟨_, by rw [place, Option.map_some], trivial⟩
  obtain ⟨values, ends, _⟩ := Pointwise.exists_mapM turns
  exact ⟨values, (zip.scriptValues_eq tables rows).trans ends⟩

end

/-- A YAML that gets the patch of its slot is tied to it. -/
lemma tied_of_tiesAlike (ids : (roomYamls.map (·.id)).Nodup) (few : roomYamls.length < 2 ^ 64)
    (zip : GenZip roomYamls.length) {fileNames rows : List String} (all : fileNames.Perm zip.names)
    (alike : TiesAlike tables overflowChecks fileNames zip.names roomYamls rows) {p : PatchEntry} (memP : p ∈ zip.patches)
    (mem : yaml ∈ roomYamls) (slot : InSlot tables roomYamls yaml p.number) : Tied tables roomYamls rows yaml p.number := by
  obtain ⟨association, ok, gives⟩ := zip.association tables overflowChecks ids few all
  obtain ⟨_, values, ok', written, same⟩ := alike
  cases Except.ok.inj (ok.symm.trans ok')
  obtain ⟨n, number⟩ := Nat.exists_eq_add_one.mpr (zip.within p memP).1
  have own : association yaml.id = some (p.name zip.seed) :=
    (gives yaml mem n (number ▸ slot) _).mpr ⟨p, memP, number, rfl⟩
  have there : ∃ file, (yaml.playerName, file) ∈ values := by
    -- otherwise the update would leave the YAML without the patch that the lobby gives it
    by_contra nothing
    have left := same yaml mem none (.left fun v memV name => nothing ⟨v.2, by rwa [← name]⟩)
    rw [own] at left
    cases left
  obtain ⟨file, memV⟩ := there
  obtain rfl : file = p.name zip.seed := Option.some.inj ((same yaml mem _ (.set memV)).trans own)
  obtain ⟨k, patch, place⟩ := (zip.mem_scriptValues written).mp memV
  obtain rfl := zip.number_of_name memP patch
  constructor
  · intro other memOther sameName
    have given := same other memOther _ (.set (sameName.symm ▸ memV))
    obtain ⟨m, slotOther⟩ := exists_inSlot tables ids memOther
    have numberOther := zip.number_of_name memP ((gives other memOther m slotOther _).mp given.symm)
    exact slot.id_eq (numberOther ▸ slotOther)
  · rw [number] at place ⊢
    exact playerAt_iff.mp place

lemma tiesAlike_of_tied (ids : (roomYamls.map (·.id)).Nodup) (few : roomYamls.length < 2 ^ 64)
    (zip : GenZip roomYamls.length) {fileNames rows : List String} (all : fileNames.Perm zip.names)
    (tied : ∀ p ∈ zip.patches, ∀ yaml ∈ roomYamls, InSlot tables roomYamls yaml p.number →
      Tied tables roomYamls rows yaml p.number) :
    TiesAlike tables overflowChecks fileNames zip.names roomYamls rows := by
  obtain ⟨association, ok, gives⟩ := zip.association tables overflowChecks ids few all
  have place : ∀ p ∈ zip.patches, ∀ yaml ∈ roomYamls, InSlot tables roomYamls yaml p.number →
      playerAt (sortBy tables.toLowercase (printedNames rows)) p.number = some yaml.playerName := by
    intro p memP yaml mem slot
    obtain ⟨n, number⟩ := Nat.exists_eq_add_one.mpr (zip.within p memP).1
    have stands := (tied p memP yaml mem slot).place
    rw [number] at stands ⊢
    exact playerAt_iff.mpr stands
  obtain ⟨values, written⟩ := zip.exists_scriptValues tables rows fun p memP => by
    obtain ⟨yaml, mem, slot⟩ := exists_of_number tables ids (zip.within p memP).1 (zip.within p memP).2
    exact ⟨_, place p memP yaml mem slot⟩
  refine ⟨association, values, ok, written, ?_⟩
  intro yaml mem patch updated
  obtain ⟨n, slot⟩ := exists_inSlot tables ids mem
  cases updated with
  | @set file memV =>
    -- the name is that of the YAML in the slot of the patch, and nobody else has it
    obtain ⟨_, ⟨p, memP, rfl, rfl⟩, at_⟩ := (zip.mem_scriptValues written).mp memV
    obtain ⟨owner, memOwner, slotOwner⟩ := exists_of_number tables ids (zip.within p memP).1 (zip.within p memP).2
    have sameName := Option.some.inj (at_.symm.trans (place p memP owner memOwner slotOwner))
    have sameId := (tied p memP owner memOwner slotOwner).alone yaml mem sameName
    obtain ⟨m, number⟩ := Nat.exists_eq_add_one.mpr (zip.within p memP).1
    have slotOwn : InSlot tables roomYamls yaml (m + 1) := number ▸ slotOwner.congr sameId
    exact ((gives yaml mem m slotOwn _).mpr ⟨p, memP, number, rfl⟩).symm
  | left others =>
    cases given : association yaml.id with
    | none => rfl
    | some name =>
      obtain ⟨p, memP, number, rfl⟩ := (gives yaml mem n slot _).mp given
      have slotP : InSlot tables roomYamls yaml p.number := number ▸ slot
      have memV := (zip.mem_scriptValues written).mpr ⟨_, ⟨p, memP, rfl, rfl⟩, place p memP yaml mem slotP⟩
      exact absurd rfl (others _ memV)

/-- The script ties each patch to the YAML that the lobby ties it to exactly if, for each patch of the archive, the name
of the YAML in its slot is nobody else's and stands at its number among the printed names. -/
theorem uploadScript_ties_iff (tables : CaseTables) (overflowChecks : Bool) (ids : (roomYamls.map (·.id)).Nodup)
    (few : roomYamls.length < 2 ^ 64) (zip : GenZip roomYamls.length) {fileNames : List String}
    (all : fileNames.Perm zip.names) (rows : List String) :
    TiesAlike tables overflowChecks fileNames zip.names roomYamls rows ↔
      ∀ p ∈ zip.patches, ∀ yaml ∈ roomYamls, InSlot tables roomYamls yaml p.number →
        Tied tables roomYamls rows yaml p.number :=
  ⟨fun alike _ memP _ mem slot => tied_of_tiesAlike ids few zip all alike memP mem slot,
    tiesAlike_of_tied ids few zip all⟩

end

/-! ## An archive of two patches -/

/-- The generation of two players. -/
def twoPatches : GenZip 2 where
  seed := ['1', '7']
  patches := [⟨1, "one".toList, "apz5".toList⟩, ⟨2, "two".toList, "apz5".toList⟩]
  others := ["AP_17_Spoiler.txt"]
  names := ["AP_17.archipelago", "AP_17_P1_one.apz5", "AP_17_P2_two.apz5", "AP_17_Spoiler.txt"]
  seed_some := by decide
  seed_digits := by simp
  listed := by decide
  numbers := by decide
  within := by decide
  oneLine := by decide
  atRoot := by decide
  oneArchipelago := by decide
  others_ascii := by simp
  others_unmatched := by decide

/-- Two YAMLs. -/
def samAnd (name : String) : List (YamlWithoutContent ℕ) := [⟨1, "Sam", none⟩, ⟨2, name, none⟩]

theorem samAndZoe_tied :
    TiesAlike Lowercase.asciiTables true twoPatches.names twoPatches.names (samAnd "Zoe") ["Zoe", "Sam"] := by
  have ids : ((samAnd "Zoe").map (·.id)).Nodup := by decide
  refine (uploadScript_ties_iff Lowercase.asciiTables true ids (by decide) twoPatches (List.Perm.refl _) _).mpr ?_
  have slots : Numbering.getSlots Lowercase.asciiTables 2 (samAnd "Zoe") = some [("Sam.yaml", 1), ("Zoe.yaml", 2)] := by
    decide +kernel
  rintro p memP yaml mem ⟨_, _, resolved, place⟩
  cases Option.some.inj (slots.symm.trans resolved)
  rcases List.mem_pair.mp memP with rfl | rfl
  · rcases List.mem_pair.mp mem with rfl | rfl
    · exact ⟨by decide, 1, by decide +kernel, by decide +kernel⟩
    · have other : (1 : ℕ) = 2 := congrArg Prod.snd (Option.some.inj place)
      exact absurd other (by decide)
  · rcases List.mem_pair.mp mem with rfl | rfl
    · have other : (2 : ℕ) = 1 := congrArg Prod.snd (Option.some.inj place)
      exact absurd other (by decide)
    · exact ⟨by decide, 0, by decide +kernel, by decide +kernel⟩

/-- The lobby gives Sam the second slot, since a hyphen comes before a dot; the script gives Sam the first patch. -/
theorem samAndSam2_not_tied :
    AcceptedName "Sam" ∧ AcceptedName "Sam-2" ∧
      ¬TiesAlike Lowercase.asciiTables true twoPatches.names twoPatches.names (samAnd "Sam-2") ["Sam", "Sam-2"] := by
  refine ⟨⟨[], [], ("Sam", ["sam"]), by decide⟩, ⟨[], [], ("Sam-2", ["sam-2"]), by decide⟩, fun alike => ?_⟩
  have ids : ((samAnd "Sam-2").map (·.id)).Nodup := by decide
  have patch : (⟨1, "one".toList, "apz5".toList⟩ : PatchEntry) ∈ twoPatches.patches := by decide
  have mem : (⟨2, "Sam-2", none⟩ : YamlWithoutContent ℕ) ∈ samAnd "Sam-2" := by decide
  have slot : InSlot Lowercase.asciiTables (samAnd "Sam-2") ⟨2, "Sam-2", none⟩ 1 :=
    ⟨[("Sam-2.yaml", 2), ("Sam.yaml", 1)], "Sam-2.yaml", by decide +kernel, rfl⟩
  have tied := tied_of_tiesAlike ids (by decide) twoPatches (List.Perm.refl _) alike patch mem slot
  exact absurd (playerAt_iff.mpr tied.place) (by decide +kernel)

end ArchipelagoXL.Lobby.UploadScript
