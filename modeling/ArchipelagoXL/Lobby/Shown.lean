import ArchipelagoXL.Lib.Ranks
import ArchipelagoXL.Lobby.Distinct

/-!
# The names that are shown

Once a room is hosted, its page shows what Archipelago calls the players (`compute_ap_slot_names`). The page sorts
the names and counts them in this order, and keeps one result for each name, while the generation counts the YAMLs
in the order of their slots, which are sorted by the names of the files. Both agree on a YAML just if its name is
filled alike with the numbers of one order and those of the other (`shown_iff_filled_alike`); a name without
holes always is (`expandName_of_not_hasHole`).
-/

namespace ArchipelagoXL.Lobby

open Ranks (sortBy)

/-! ## The page -/

/-- The loop of `compute_ap_slot_names`; the map as what was put in, the newest first. -/
def collectApNames : List String → List (String × String) → List String → List (String × String)
  | _, result, [] => result
  | counter, result, name :: rest =>
    let (truncated, counter) := getApPlayerName name counter
    collectApNames counter ((name, truncated) :: result) rest

/-- Rust `compute_ap_slot_names`. -/
def computeApSlotNames (playerNames : List String) : List (String × String) :=
  let sortedIndices := (List.range playerNames.length).insertionSort fun a b =>
    toLowercase (playerNames.getD a "") ≤ toLowercase (playerNames.getD b "")
  collectApNames [] [] (sortedIndices.map fun idx => playerNames.getD idx "")

section
variable {I : Type} [DecidableEq I]

/-- Each YAML is shown with the name that it has in its slot. -/
def NamesShown (roomYamls : List (YamlWithoutContent I)) : Prop :=
  ∀ (k : ℕ) (yaml : YamlWithoutContent I), (slotYamls roomYamls)[k]? = some yaml →
    (computeApSlotNames (roomYamls.map (·.playerName))).lookup yaml.playerName =
      (apPlayerNames [] (slotYamls roomYamls))[k]?

end

/-! ## The numbers of both orders -/

section
variable {I : Type}

/-- The YAMLs with the names of their files. -/
def namedFiles (roomYamls : List (YamlWithoutContent I)) : List (YamlWithoutContent I × String) :=
  roomYamls.zip ((withFileNames [] roomYamls).map Prod.fst)

/-- The files in the order in which they are read. -/
def slotFiles (roomYamls : List (YamlWithoutContent I)) : List (YamlWithoutContent I × String) :=
  sortBy (fun e => toLowercase e.2) (namedFiles roomYamls)

/-- A YAML has the slot after those whose files come before. -/
def usedPlayer (roomYamls : List (YamlWithoutContent I)) (e : YamlWithoutContent I × String) : ℕ :=
  (namedFiles roomYamls).countP (fun f => toLowercase f.2 < toLowercase e.2) + 1

/-- Of them, those whose names have the same letters. -/
def usedNumber (roomYamls : List (YamlWithoutContent I)) (e : YamlWithoutContent I × String) : ℕ :=
  (namedFiles roomYamls).countP (fun f => toLowercase f.2 < toLowercase e.2 ∧
    toLowercase f.1.playerName = toLowercase e.1.playerName) + 1

end

/-- The names with the letters of a name, in their order. -/
def withSameLetters (names : List String) (name : String) : List String :=
  names.filter fun n => toLowercase n = toLowercase name

/-- The page counts the names with the same letters up to the last one that is this very name. -/
def shownNumber (names : List String) (name : String) : ℕ :=
  (withSameLetters names name).length - (withSameLetters names name).reverse.idxOf name

/-- Before them it counts those with smaller letters. -/
def shownPlayer (names : List String) (name : String) : ℕ :=
  names.countP (fun n => toLowercase n < toLowercase name) + shownNumber names name

/-! ## What the page collects -/

lemma collectApNames_eq (counter : List String) (result : List (String × String)) (names : List String) :
    collectApNames counter result names = (names.zip (countedNames counter names)).reverse ++ result := by
  induction names generalizing counter result with
  | nil => rfl
  | cons name rest ih =>
    rw [collectApNames, countedNames]
    dsimp only
    rw [ih, List.zip_cons_cons, List.reverse_cons, List.append_assoc]
    rfl

/-- Sorting by texts, whichever way these are compared. -/
lemma insertionSort_eq_sortBy {A : Type} (key : A → String) (dec : DecidableRel fun a b : A => key a ≤ key b)
    (l : List A) : @List.insertionSort A (fun a b => key a ≤ key b) dec l = sortBy key l := by
  rw [sortBy]
  congr!

/-- The page goes through the sorted names. -/
lemma computeApSlotNames_eq (names : List String) :
    computeApSlotNames names =
      ((sortBy toLowercase names).zip (countedNames [] (sortBy toLowercase names))).reverse := by
  have all : (List.range names.length).map (fun idx => names.getD idx "") = names := by
    apply List.ext_getElem
    · simp
    · intro k h h'
      rw [List.getElem_map, List.getElem_range, List.getD_eq_getElem?_getD, List.getElem?_eq_getElem h']
      rfl
  have sorted : (sortBy (fun idx => toLowercase (names.getD idx "")) (List.range names.length)).map
      (fun idx => names.getD idx "") = sortBy toLowercase names := by
    rw [Ranks.sortBy_map _ (fun idx => names.getD idx ""), all]
  rw [computeApSlotNames, collectApNames_eq, List.append_nil,
    insertionSort_eq_sortBy fun idx => toLowercase (names.getD idx ""), sorted]

/-- The last occurrence of a name. -/
lemma exists_last {names : List String} {name : String} (mem : name ∈ names) :
    ∃ before after, names = before ++ name :: after ∧ name ∉ after := by
  obtain ⟨after, before, split, fresh⟩ := List.eq_append_cons_of_mem (List.mem_reverse.mpr mem)
  refine ⟨before.reverse, after.reverse, ?_, fun again => fresh (List.mem_reverse.mp again)⟩
  rw [← names.reverse_reverse, split]
  simp

/-- The number of a name where it stands last. -/
lemma shownNumber_eq {names before after : List String} {name : String} (fresh : name ∉ after)
    (same : withSameLetters names name = withSameLetters (before ++ name :: after) name) :
    shownNumber names name = sameLetters before name + 1 := by
  have parts : withSameLetters (before ++ name :: after) name =
      withSameLetters before name ++ name :: withSameLetters after name := by
    simp [withSameLetters, List.filter_append]
  have notAfter : name ∉ (withSameLetters after name).reverse :=
    fun mem => fresh (List.mem_filter.mp (List.mem_reverse.mp mem)).1
  have count : sameLetters before name = (withSameLetters before name).length := by
    rw [sameLetters, List.count, List.countP_map, List.countP_eq_length_filter, withSameLetters]
    rfl
  rw [shownNumber, same, parts, List.reverse_append, List.reverse_cons, List.append_assoc,
    List.idxOf_append_of_notMem notAfter, count]
  simp
  omega

/-- The place of a name where it stands last in the sorted names. -/
lemma shownPlayer_eq {names before after : List String} {name : String} (fresh : name ∉ after)
    (split : sortBy toLowercase names = before ++ name :: after)
    (same : withSameLetters names name = withSameLetters (before ++ name :: after) name) :
    shownPlayer names name = before.length + 1 := by
  have sorted := Ranks.sortBy_sorted toLowercase names
  rw [split, List.pairwise_append] at sorted
  obtain ⟨_, later, upTo⟩ := sorted
  have smaller : names.countP (fun n => toLowercase n < toLowercase name) =
      before.countP fun n => toLowercase n < toLowercase name := by
    have notLater : (name :: after).countP (fun n => decide (toLowercase n < toLowercase name)) = 0 := by
      apply List.countP_eq_zero.mpr
      intro n mem
      rw [decide_eq_true_iff, not_lt]
      rcases List.mem_cons.mp mem with rfl | mem
      · exact le_rfl
      · exact (List.pairwise_cons.mp later).1 n mem
    rw [← (Ranks.sortBy_perm toLowercase names).countP_eq, split, List.countP_append, notLater, Nat.add_zero]
  have parts : before.length =
      before.countP (fun n => toLowercase n < toLowercase name) + sameLetters before name := by
    rw [sameLetters, List.count, List.countP_map, List.length_eq_countP_add_countP
      (fun n => decide (toLowercase n < toLowercase name))]
    apply Nat.add_left_cancel_iff.mpr
    apply List.countP_congr
    intro n mem
    have le := upTo n mem name List.mem_cons_self
    simp only [Function.comp_apply, beq_iff_eq, decide_eq_true_eq, not_lt]
    exact ⟨fun ge => le_antisymm le ge, fun e => e.ge⟩
  rw [shownPlayer, shownNumber_eq fresh same, smaller, parts]
  omega

/-- What is put in last is found. -/
lemma lookup_reverse_zip {before after values values' : List String} {name value : String} (fresh : name ∉ after)
    (length : before.length = values.length) :
    ((before ++ name :: after).zip (values ++ value :: values')).reverse.lookup name = some value := by
  have notAfter : (after.zip values').reverse.lookup name = none := by
    apply List.lookup_eq_none_iff.mpr
    intro e mem
    rw [bne_iff_ne]
    rintro rfl
    exact fresh (List.of_mem_zip (List.mem_reverse.mp mem)).1
  rw [List.zip_append length, List.zip_cons_cons, List.reverse_append, List.reverse_cons, List.append_assoc,
    List.lookup_append, notAfter]
  simp

/-- What the page shows for a name. -/
lemma lookup_computeApSlotNames {names : List String} {name : String} (mem : name ∈ names) :
    (computeApSlotNames names).lookup name =
      some (expandName (shownNumber names name) (shownPlayer names name) name) := by
  rw [computeApSlotNames_eq]
  obtain ⟨before, after, split, fresh⟩ := exists_last ((Ranks.sortBy_perm toLowercase names).mem_iff.mpr mem)
  have same : withSameLetters names name = withSameLetters (before ++ name :: after) name := by
    rw [← split]
    refine (Ranks.filter_sortBy fun a _ isA b _ isB => ?_).symm
    exact (of_decide_eq_true isA).trans (of_decide_eq_true isB).symm
  have place : (before ++ name :: after)[before.length]? = some name := by simp
  obtain ⟨counted, _, inside⟩ := getElem_countedNames_nil place
  rw [lettersBefore, List.take_left, ← shownNumber_eq fresh same, ← shownPlayer_eq fresh split same] at counted
  obtain ⟨fits, here⟩ := List.getElem?_eq_some_iff.mp counted
  rw [split, ← here]
  have values : countedNames [] (before ++ name :: after) =
      (countedNames [] (before ++ name :: after)).take before.length ++
        (countedNames [] (before ++ name :: after))[before.length] ::
          (countedNames [] (before ++ name :: after)).drop (before.length + 1) := by
    rw [List.getElem_cons_drop, List.take_append_drop]
  conv_lhs => rw [values]
  apply lookup_reverse_zip fresh
  rw [List.length_take]
  omega

/-! ## What the generation uses -/

section
variable {I : Type}

lemma withFileNames_zip (emittedNames : List String) (roomYamls : List (YamlWithoutContent I)) :
    withFileNames emittedNames roomYamls =
      (roomYamls.zip ((withFileNames emittedNames roomYamls).map Prod.fst)).map fun e => (e.2, e.1.id) := by
  induction roomYamls generalizing emittedNames with
  | nil => rfl
  | cons yaml rest ih => exact congrArg _ (ih _)

lemma namedFiles_distinct (roomYamls : List (YamlWithoutContent I)) :
    ((namedFiles roomYamls).map fun e => toLowercase e.2).Nodup := by
  have nodup := (withFileNames_nodup [] roomYamls).1
  rw [withFileNames_zip, List.map_map] at nodup
  exact nodup

lemma getSlots_eq (roomYamls : List (YamlWithoutContent I)) :
    getSlots roomYamls = (slotFiles roomYamls).map fun e => (e.2, e.1.id) := by
  rw [getSlots, insertionSort_eq_sortBy fun slot : String × I => toLowercase slot.1, withFileNames_zip]
  exact (Ranks.sortBy_map (fun slot : String × I => toLowercase slot.1)
    (fun e : YamlWithoutContent I × String => (e.2, e.1.id)) _).symm

/-- The numbers of a file by its place. -/
lemma numbers_slotFiles {roomYamls : List (YamlWithoutContent I)} {k : ℕ} {e : YamlWithoutContent I × String}
    (place : (slotFiles roomYamls)[k]? = some e) :
    lettersBefore ((slotFiles roomYamls).map fun f => f.1.playerName) k e.1.playerName + 1 = usedNumber roomYamls e ∧
      k + 1 = usedPlayer roomYamls e := by
  have before := Ranks.take_of_strict (Ranks.sortBy_strict (namedFiles_distinct roomYamls)) place
  have perm : (slotFiles roomYamls).Perm (namedFiles roomYamls) := Ranks.sortBy_perm _ _
  constructor
  · rw [lettersBefore, sameLetters, ← List.map_take, List.map_map, List.count, List.countP_map, usedNumber,
      ← perm.countP_eq]
    rw [slotFiles, before, List.countP_filter]
    apply Nat.add_right_cancel_iff.mpr
    apply List.countP_congr
    intro f _
    simp [and_comm]
  · have inside := (List.getElem?_eq_some_iff.mp place).1
    rw [usedPlayer, ← perm.countP_eq, List.countP_eq_length_filter, slotFiles, ← before, List.length_take]
    rw [slotFiles] at inside
    omega

variable [DecidableEq I]

/-- The slots in the order of the files. -/
lemma slotYamls_eq {roomYamls : List (YamlWithoutContent I)} (ids : (roomYamls.map (·.id)).Nodup) :
    slotYamls roomYamls = (slotFiles roomYamls).map Prod.fst := by
  have found : ∀ e ∈ slotFiles roomYamls, roomYamls.find? (fun yaml => yaml.id = e.1.id) = some e.1 := by
    intro e mem
    have there : e ∈ namedFiles roomYamls := (Ranks.sortBy_perm _ _).mem_iff.mp mem
    exact find_id ids (List.of_mem_zip there).1
  rw [slotYamls, getSlots_eq, List.filterMap_map]
  exact (List.filterMap_congr found).trans (congrFun List.filterMap_eq_map' _)

/-- What a YAML is called in its slot. -/
lemma getElem_apPlayerNames_slotYamls {roomYamls : List (YamlWithoutContent I)} (ids : (roomYamls.map (·.id)).Nodup)
    {k : ℕ} {e : YamlWithoutContent I × String} (place : (slotFiles roomYamls)[k]? = some e) :
    (apPlayerNames [] (slotYamls roomYamls))[k]? =
      some (expandName (usedNumber roomYamls e) (usedPlayer roomYamls e) e.1.playerName) := by
  have names : (slotYamls roomYamls).map (·.playerName) = (slotFiles roomYamls).map fun f => f.1.playerName := by
    rw [slotYamls_eq ids, List.map_map]
    rfl
  have here : ((slotFiles roomYamls).map fun f => f.1.playerName)[k]? = some e.1.playerName := by
    rw [List.getElem?_map, place]
    rfl
  obtain ⟨number, player⟩ := numbers_slotFiles place
  rw [apPlayerNames_eq, names, (getElem_countedNames_nil here).1, number, player]

/-- Each YAML is shown with the name that it has in its slot just if its name is filled alike with the numbers of
both orders. -/
theorem shown_iff_filled_alike (roomYamls : List (YamlWithoutContent I)) (ids : (roomYamls.map (·.id)).Nodup) :
    NamesShown roomYamls ↔ ∀ e ∈ namedFiles roomYamls,
      expandName (shownNumber (roomYamls.map (·.playerName)) e.1.playerName)
          (shownPlayer (roomYamls.map (·.playerName)) e.1.playerName) e.1.playerName =
        expandName (usedNumber roomYamls e) (usedPlayer roomYamls e) e.1.playerName := by
  have shown : ∀ e ∈ namedFiles roomYamls,
      (computeApSlotNames (roomYamls.map (·.playerName))).lookup e.1.playerName =
        some (expandName (shownNumber (roomYamls.map (·.playerName)) e.1.playerName)
          (shownPlayer (roomYamls.map (·.playerName)) e.1.playerName) e.1.playerName) := by
    intro e mem
    exact lookup_computeApSlotNames (List.mem_map_of_mem (List.of_mem_zip mem).1)
  have perm : (slotFiles roomYamls).Perm (namedFiles roomYamls) := Ranks.sortBy_perm _ _
  constructor
  · intro agree e mem
    obtain ⟨k, inside, rfl⟩ := List.getElem_of_mem (perm.mem_iff.mpr mem)
    have place := List.getElem?_eq_getElem inside
    have slot : (slotYamls roomYamls)[k]? = some (slotFiles roomYamls)[k].1 := by
      rw [slotYamls_eq ids, List.getElem?_map, place]
      rfl
    have both := agree k _ slot
    rw [shown _ mem, getElem_apPlayerNames_slotYamls ids place] at both
    exact Option.some.inj both
  · intro alike k yaml slot
    rw [slotYamls_eq ids, List.getElem?_map] at slot
    obtain ⟨e, place, rfl⟩ := Option.map_eq_some_iff.mp slot
    have mem := perm.mem_iff.mp (List.mem_of_getElem? place)
    rw [shown e mem, getElem_apPlayerNames_slotYamls ids place, alike e mem]

end

/-- A room of two YAMLs. -/
def yamlsOf (name name' : String) : List (YamlWithoutContent ℕ) := [⟨1, name, none⟩, ⟨2, name', none⟩]

/-- Two players with one name get different slots and are shown with one name. -/
theorem same_template_not_shown : ¬ NamesShown (yamlsOf "Bob\x7bnumber\x7d" "Bob\x7bnumber\x7d") := by
  intro shown
  have first := shown 0 ⟨1, "Bob\x7bnumber\x7d", none⟩ (by decide +kernel)
  have bob1 : (apPlayerNames [] (slotYamls (yamlsOf "Bob\x7bnumber\x7d" "Bob\x7bnumber\x7d")))[0]? = some "Bob1" := by
    decide +kernel
  have bob2 : (computeApSlotNames ["Bob\x7bnumber\x7d", "Bob\x7bnumber\x7d"]).lookup "Bob\x7bnumber\x7d" =
      some "Bob2" := by decide +kernel
  have same := (bob2.symm.trans first).trans bob1
  exact absurd same (by decide)

theorem different_templates_shown : NamesShown (yamlsOf "Bob\x7bnumber\x7d" "carl\x7bplayer\x7d") := by
  apply (shown_iff_filled_alike _ (by decide)).mpr
  decide +kernel

end ArchipelagoXL.Lobby
