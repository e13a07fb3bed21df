import ArchipelagoXL.Lobby.Names
import Mathlib.Data.List.Sort
import Mathlib.Data.String.Basic

/-!
# The slots of a room

The YAMLs of a room are numbered by the names of their files in the generation (`get_slots` in
`lobby/src/generation.rs`): each file is named after its player, with a suffix if the name is taken, and
Archipelago reads the files by their lowercased names. What Archipelago calls the players is what
`get_ap_player_name` says when it counts the YAMLs in this order.

Every YAML has one slot (`slotYamls_perm`), and a plain name is also the name of its slot
(`PlainName.getElem_apPlayerNames`).
-/

namespace ArchipelagoXL.Lobby

/-- The row of a YAML without its content (Rust `YamlWithoutContent`); `I` names YAMLs. -/
structure YamlWithoutContent (I : Type) where
  id : I
  playerName : String
  password : Option String
deriving DecidableEq

/-- Rust `sanitize_yaml_name`. -/
def sanitizeYamlName (name : String) : String :=
  let sanitized := name.toList.map fun c =>
    if ['/', '\\', '<', '>', ':', '?', '*', '|', '"'].contains c then '_' else c
  match sanitized with
  | '.' :: rest => String.ofList ('_' :: rest)
  | _ => String.ofList sanitized

/-- The name of a file with a suffix. -/
def suffixedName (playerName : String) (suffix : ℕ) : String :=
  playerName ++ "_" ++ toString suffix ++ ".yaml"

/-- The name that the loop of `get_slots` gives a file; one of the first suffixes is free
(`fileName_fresh`). -/
def fileName (emittedNames : List String) (playerName : String) : String :=
  let originalFileName := playerName ++ ".yaml"
  if emittedNames.contains (toLowercase originalFileName) then
    match (List.range (emittedNames.length + 1)).find? fun suffix =>
      !emittedNames.contains (toLowercase (suffixedName playerName suffix)) with
    | some suffix => suffixedName playerName suffix
    | none => originalFileName
  else originalFileName

section

variable {I : Type}

/-- The YAMLs with the names of their files. -/
def withFileNames : List String → List (YamlWithoutContent I) → List (String × I)
  | _, [] => []
  | emittedNames, yaml :: rest =>
    let originalFileName := fileName emittedNames (sanitizeYamlName yaml.playerName)
    (originalFileName, yaml.id) :: withFileNames (toLowercase originalFileName :: emittedNames) rest

/-- Rust `get_slots`. -/
def getSlots (roomYamls : List (YamlWithoutContent I)) : List (String × I) :=
  (withFileNames [] roomYamls).insertionSort fun a b => toLowercase a.1 ≤ toLowercase b.1

/-- What Archipelago calls the players of some YAMLs, with a counter. -/
def apPlayerNames : List String → List (YamlWithoutContent I) → List String
  | _, [] => []
  | playerCounter, yaml :: rest =>
    let (playerName, playerCounter) := getApPlayerName yaml.playerName playerCounter
    playerName :: apPlayerNames playerCounter rest

variable [DecidableEq I]

/-- The YAMLs in the order of their slots. -/
def slotYamls (roomYamls : List (YamlWithoutContent I)) : List (YamlWithoutContent I) :=
  (getSlots roomYamls).filterMap fun slot => roomYamls.find? fun yaml => yaml.id = slot.2

end

/-! ## Files have different names -/

lemma toLowercase_append (s t : String) : toLowercase (s ++ t) = toLowercase s ++ toLowercase t := by
  simp [toLowercase]

lemma toLower_of_isDigit {c : Char} (digit : c.isDigit = true) : c.toLower = c := by
  rw [Char.isDigit, Bool.and_eq_true, decide_eq_true_iff, decide_eq_true_iff] at digit
  have noUpper : ¬ (c.val ≥ ('A' : Char).val ∧ c.val ≤ ('Z' : Char).val) := by
    rintro ⟨upper, -⟩
    have le : ('A' : Char).val ≤ ('9' : Char).val := UInt32.le_trans upper digit.2
    exact absurd le (by decide)
  exact dif_neg noUpper

lemma isDigit_of_mem_toString {n : ℕ} {c : Char} (mem : c ∈ (toString n).toList) : c.isDigit = true := by
  have mem : c ∈ n.repr.toList := mem
  rw [Nat.toList_repr] at mem
  exact Nat.isDigit_of_mem_toDigits (by decide) (by decide) mem

/-- Numbers have no case. -/
lemma toLowercase_toString (n : ℕ) : toLowercase (toString n) = toString n := by
  rw [toLowercase]
  have same : (toString n).toList.map Char.toLower = (toString n).toList.map id :=
    List.map_congr_left fun c mem => toLower_of_isDigit (isDigit_of_mem_toString mem)
  rw [same, List.map_id, String.ofList_toList]

/-- Numbers are told apart by their digits. -/
lemma toString_injective : Function.Injective (toString : ℕ → String) := by
  intro m n same
  have digits : Nat.toDigits 10 m = Nat.toDigits 10 n := by
    rw [← Nat.toList_repr, ← Nat.toList_repr]
    exact congrArg String.toList same
  rw [← Nat.ofDigitChars_toDigits (b := 10) (n := m) (by decide) (by decide), digits,
    Nat.ofDigitChars_toDigits (by decide) (by decide)]

lemma suffixedName_injective (playerName : String) :
    Function.Injective fun suffix => toLowercase (suffixedName playerName suffix) := by
  intro m n same
  simp only [suffixedName, toLowercase_append, toLowercase_toString, String.append_left_inj,
    String.append_right_inj] at same
  exact toString_injective same

/-- A name that no file has. -/
lemma fileName_fresh (emittedNames : List String) (playerName : String) :
    toLowercase (fileName emittedNames playerName) ∉ emittedNames := by
  rw [fileName]
  split
  case isFalse free => simpa using free
  case isTrue =>
    split
    case h_1 suffix found => simpa using List.find?_some found
    case h_2 taken =>
      -- the suffixes up to the number of taken names can't all be taken
      have all : (List.range (emittedNames.length + 1)).map
          (fun suffix => toLowercase (suffixedName playerName suffix)) ⊆
          emittedNames := by
        intro name mem
        obtain ⟨suffix, hsuffix, rfl⟩ := List.mem_map.mp mem
        simpa using List.find?_eq_none.mp taken suffix hsuffix
      have nodup : ((List.range (emittedNames.length + 1)).map fun suffix =>
          toLowercase (suffixedName playerName suffix)).Nodup :=
        List.nodup_range.map (suffixedName_injective playerName)
      have short := (List.subperm_of_subset nodup all).length_le
      rw [List.length_map, List.length_range] at short
      omega

section

variable {I : Type}

/-- No two files have the same name, in any case of letters. -/
lemma withFileNames_nodup (emittedNames : List String) (roomYamls : List (YamlWithoutContent I)) :
    ((withFileNames emittedNames roomYamls).map fun file => toLowercase file.1).Nodup ∧
      ∀ file ∈ withFileNames emittedNames roomYamls, toLowercase file.1 ∉ emittedNames := by
  induction roomYamls generalizing emittedNames with
  | nil => exact ⟨List.nodup_nil, fun file mem => by cases mem⟩
  | cons yaml rest ih =>
    obtain ⟨nodup, fresh⟩ := ih (toLowercase (fileName emittedNames (sanitizeYamlName yaml.playerName)) :: emittedNames)
    constructor
    · refine List.nodup_cons.mpr ⟨?_, nodup⟩
      intro again
      obtain ⟨file, mem, same⟩ := List.mem_map.mp again
      exact fresh file mem (same ▸ List.mem_cons_self)
    · intro file mem taken
      rcases List.mem_cons.mp mem with rfl | mem
      · exact fileName_fresh _ _ taken
      · exact fresh file mem (List.mem_cons_of_mem _ taken)

/-! ## Each YAML has one slot -/

lemma withFileNames_ids (emittedNames : List String) (roomYamls : List (YamlWithoutContent I)) :
    (withFileNames emittedNames roomYamls).map Prod.snd = roomYamls.map (·.id) := by
  induction roomYamls generalizing emittedNames with
  | nil => rfl
  | cons yaml rest ih => exact congrArg (yaml.id :: ·) (ih _)

lemma getSlots_ids (roomYamls : List (YamlWithoutContent I)) :
    ((getSlots roomYamls).map Prod.snd).Perm (roomYamls.map (·.id)) := by
  rw [← withFileNames_ids []]
  exact (List.perm_insertionSort _ _).map Prod.snd

variable [DecidableEq I]

omit [DecidableEq I] in
/-- What has a key of its own is found by it. -/
lemma find_key {A K : Type} [DecidableEq K] {key : A → K} {l : List A} (keys : (l.map key).Nodup) {a : A}
    (mem : a ∈ l) : l.find? (fun b => key b = key a) = some a := by
  rcases found : l.find? (fun b => key b = key a) with _ | b
  case none => exact absurd (decide_eq_true rfl) (List.find?_eq_none.mp found a mem)
  case some =>
    have same : key b = key a := by simpa using List.find?_some found
    rw [List.inj_on_of_nodup_map keys (List.mem_of_find?_eq_some found) mem same]

/-- A YAML is found by its id. -/
lemma find_id {roomYamls : List (YamlWithoutContent I)} (ids : (roomYamls.map (·.id)).Nodup)
    {yaml : YamlWithoutContent I} (mem : yaml ∈ roomYamls) :
    roomYamls.find? (fun yaml' => yaml'.id = yaml.id) = some yaml := find_key ids mem

/-- The slots are the YAMLs in another order. -/
lemma slotYamls_perm {roomYamls : List (YamlWithoutContent I)} (ids : (roomYamls.map (·.id)).Nodup) :
    (slotYamls roomYamls).Perm roomYamls := by
  have slots : slotYamls roomYamls = ((getSlots roomYamls).map Prod.snd).filterMap fun id =>
      roomYamls.find? fun yaml => yaml.id = id := by
    rw [slotYamls, List.filterMap_map]
    rfl
  have all : (roomYamls.map (·.id)).filterMap (fun id => roomYamls.find? fun yaml => yaml.id = id) =
      roomYamls := by
    rw [List.filterMap_map]
    refine (List.filterMap_congr fun yaml mem => find_id ids mem).trans ?_
    exact List.filterMap_some
  rw [slots]
  exact ((getSlots_ids roomYamls).filterMap _).trans (List.Perm.of_eq all)

omit [DecidableEq I] in
/-- A player has the name that is made of the one in the YAML. -/
lemma getElem_apPlayerNames {yamls : List (YamlWithoutContent I)} {k : ℕ} {yaml : YamlWithoutContent I}
    (slot : yamls[k]? = some yaml) (playerCounter : List String) :
    ∃ counted, (apPlayerNames playerCounter yamls)[k]? = some (getApPlayerName yaml.playerName counted).1 := by
  induction yamls generalizing k playerCounter with
  | nil => cases slot
  | cons first rest ih =>
    cases k with
    | zero =>
      obtain rfl := Option.some.inj slot
      exact ⟨playerCounter, rfl⟩
    | succ k => exact ih slot _

omit [DecidableEq I] in
/-- A plain name is also the name of its slot. -/
lemma PlainName.getElem_apPlayerNames {yamls : List (YamlWithoutContent I)} {k : ℕ}
    {yaml : YamlWithoutContent I} (plain : PlainName yaml.playerName) (slot : yamls[k]? = some yaml)
    (playerCounter : List String) : (apPlayerNames playerCounter yamls)[k]? = some yaml.playerName := by
  obtain ⟨counted, name⟩ := Lobby.getElem_apPlayerNames slot playerCounter
  rw [name, plain.getApPlayerName]

end

end ArchipelagoXL.Lobby
