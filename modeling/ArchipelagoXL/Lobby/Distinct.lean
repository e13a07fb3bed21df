import ArchipelagoXL.Lobby.Download

/-!
# Names that stay distinct

An upload is checked against the names that the YAMLs of the room get in the order of their ids
(`parse_and_validate_yamls_for_room`), while Archipelago counts them in the order of their slots, and later
uploads and deletions change what is counted.

A name without holes is the same in any order, so the check keeps such names distinct. A name with a hole
depends on the order: the names of a room stay distinct as long as no upload adds a name with a hole that could
meet another one (`distinctNames_of_holesApart`).
-/

namespace ArchipelagoXL.Lobby

/-! ## Names in an order -/

/-- What Archipelago calls the `number`-th YAML with these letters, the `player`-th of all. -/
def expandName (number player : ℕ) (name : String) : String :=
  String.ofList (trimEnd ((trimStart (fillHoles number player name.toList)).take 16))

lemma getApPlayerName_fst (name : String) (playerCounter : List String) :
    (getApPlayerName name playerCounter).1 =
      expandName (playerCounter.count (toLowercase name) + 1) (playerCounter.length + 1) name := by
  rw [getApPlayerName, expandName]
  dsimp only
  rw [List.count_cons_self, List.length_cons]

/-- What Archipelago calls the players with some names, with a counter. -/
def countedNames : List String → List String → List String
  | _, [] => []
  | playerCounter, name :: rest =>
    let (playerName, playerCounter) := getApPlayerName name playerCounter
    playerName :: countedNames playerCounter rest

lemma apPlayerNames_eq {I : Type} (playerCounter : List String) (yamls : List (YamlWithoutContent I)) :
    apPlayerNames playerCounter yamls = countedNames playerCounter (yamls.map (·.playerName)) := by
  induction yamls generalizing playerCounter with
  | nil => rfl
  | cons yaml rest ih => exact congrArg _ (ih _)

lemma playersInRoom_eq (playerCounter names : List String) :
    playersInRoom playerCounter names = ((countedNames playerCounter names).map toLowercase,
      (names.map toLowercase).reverse ++ playerCounter) := by
  induction names generalizing playerCounter with
  | nil => rfl
  | cons name rest ih =>
    rw [playersInRoom]
    dsimp only
    rw [ih, List.map_cons, List.reverse_cons, List.append_assoc]
    rfl

lemma countedNames_append (playerCounter names later : List String) :
    countedNames playerCounter (names ++ later) =
      countedNames playerCounter names ++ countedNames ((names.map toLowercase).reverse ++ playerCounter) later := by
  induction names generalizing playerCounter with
  | nil => rfl
  | cons name rest ih =>
    rw [List.cons_append, countedNames, countedNames]
    dsimp only
    rw [ih, List.map_cons, List.reverse_cons, List.append_assoc]
    rfl

/-- The numbers that a name is expanded with in its place. -/
lemma getElem_countedNames {names : List String} {k : ℕ} {name : String} (place : names[k]? = some name)
    (playerCounter : List String) :
    (countedNames playerCounter names)[k]? = some (expandName
      (((names.take k).map toLowercase).count (toLowercase name) + playerCounter.count (toLowercase name) + 1)
      (playerCounter.length + k + 1) name) := by
  induction names generalizing k playerCounter with
  | nil => cases place
  | cons first rest ih =>
    cases k with
    | zero =>
      obtain rfl := Option.some.inj place
      rw [countedNames, List.getElem?_cons_zero, getApPlayerName_fst]
      simp
    | succ k =>
      rw [countedNames, List.getElem?_cons_succ]
      have later := ih place (toLowercase first :: playerCounter)
      refine later.trans ?_
      rw [List.take_succ_cons, List.map_cons, List.count_cons, List.count_cons, List.length_cons]
      congr 2
      · omega
      · omega

lemma length_countedNames (playerCounter names : List String) :
    (countedNames playerCounter names).length = names.length := by
  induction names generalizing playerCounter with
  | nil => rfl
  | cons name rest ih => exact congrArg (· + 1) (ih _)

/-! ## Names with holes -/

/-- A name in which a hole opens. -/
def HasHole (name : String) : Prop := '{' ∈ name.toList

instance (name : String) : Decidable (HasHole name) := inferInstanceAs (Decidable (_ ∈ _))

/-- A name without holes is the same in any order. -/
lemma expandName_of_not_hasHole {name : String} (plain : ¬ HasHole name) (number player number' player' : ℕ) :
    expandName number player name = expandName number' player' name := by
  rw [expandName, expandName, fillHoles_of_noOpen plain, fillHoles_of_noOpen plain]

/-- How many names have the letters of a name. -/
def sameLetters (names : List String) (name : String) : ℕ := (names.map toLowercase).count (toLowercase name)

/-- Two YAMLs of a room could be called the same: for some order, as far as the numbers tell. -/
def CanMeet (names : List String) (a b : String) : Prop :=
  ∃ number ∈ List.range (sameLetters names a), ∃ number' ∈ List.range (sameLetters names b),
    ∃ player ∈ List.range names.length, ∃ player' ∈ List.range names.length, player ≠ player' ∧
      (toLowercase a = toLowercase b → number ≠ number') ∧
      toLowercase (expandName (number + 1) (player + 1) a) = toLowercase (expandName (number' + 1) (player' + 1) b)

instance (names : List String) (a b : String) : Decidable (CanMeet names a b) :=
  inferInstanceAs (Decidable (∃ number ∈ List.range _, ∃ number' ∈ List.range _, ∃ player ∈ List.range _,
    ∃ player' ∈ List.range _, player ≠ player' ∧ (_ → number ≠ number') ∧
      toLowercase (expandName (number + 1) (player + 1) a) = toLowercase (expandName (number' + 1) (player' + 1) b)))

/-- The names of a room with holes could not be those of other YAMLs, nor reserved. -/
structure HolesApart (names : List String) : Prop where
  apart : names.Pairwise fun a b => HasHole a ∨ HasHole b → ¬ CanMeet names a b
  free : ∀ a ∈ names, HasHole a → ∀ number < sameLetters names a, ∀ player < names.length,
    isReservedName (expandName (number + 1) (player + 1) a) = false

/-- The names of a room without holes are different, and none is reserved. -/
structure PlainDistinct (names : List String) : Prop where
  distinct : names.Pairwise fun a b => ¬ HasHole a → ¬ HasHole b →
    toLowercase (expandName 1 1 a) ≠ toLowercase (expandName 1 1 b)
  free : ∀ a ∈ names, ¬ HasHole a → isReservedName (expandName 1 1 a) = false

lemma sameLetters_perm {names names' : List String} (perm : names.Perm names') (name : String) :
    sameLetters names name = sameLetters names' name := (perm.map _).count_eq _

lemma sameLetters_sublist {names names' : List String} (fewer : names.Sublist names') (name : String) :
    sameLetters names name ≤ sameLetters names' name := (fewer.map _).count_le _

lemma CanMeet.mono {names names' : List String} (letters : ∀ name, sameLetters names name ≤ sameLetters names' name)
    (length : names.length ≤ names'.length) {a b : String} (meet : CanMeet names a b) : CanMeet names' a b := by
  obtain ⟨number, isNumber, number', isNumber', player, isPlayer, player', isPlayer', same⟩ := meet
  rw [List.mem_range] at isNumber isNumber' isPlayer isPlayer'
  exact ⟨number, List.mem_range.mpr (isNumber.trans_le (letters a)), number',
    List.mem_range.mpr (isNumber'.trans_le (letters b)), player, List.mem_range.mpr (isPlayer.trans_le length),
    player', List.mem_range.mpr (isPlayer'.trans_le length), same⟩

lemma CanMeet.symm {names : List String} {a b : String} (meet : CanMeet names a b) : CanMeet names b a := by
  obtain ⟨number, isNumber, number', isNumber', player, isPlayer, player', isPlayer', other, otherNumber, same⟩ :=
    meet
  exact ⟨number', isNumber', number, isNumber, player', isPlayer', player, isPlayer, other.symm,
    fun letters => (otherNumber letters.symm).symm, same.symm⟩

lemma HolesApart.perm {names names' : List String} (apart : HolesApart names) (perm : names.Perm names') :
    HolesApart names' where
  apart := by
    have symm : ∀ {a b : String}, (HasHole a ∨ HasHole b → ¬ CanMeet names' a b) →
        HasHole b ∨ HasHole a → ¬ CanMeet names' b a :=
      fun apart hole meet => apart hole.symm meet.symm
    refine (perm.pairwise_iff symm).mp (apart.apart.imp fun {a b} apart hole meet => ?_)
    exact apart hole (meet.mono (fun name => (sameLetters_perm perm name).ge) perm.length_eq.ge)
  free a mem hole number isNumber player isPlayer :=
    apart.free a (perm.mem_iff.mpr mem) hole number (by rwa [sameLetters_perm perm]) player
      (by rwa [perm.length_eq])

lemma HolesApart.sublist {names names' : List String} (apart : HolesApart names') (fewer : names.Sublist names') :
    HolesApart names where
  apart := by
    refine (apart.apart.sublist fewer).imp fun {a b} apart hole meet => ?_
    exact apart hole (meet.mono (sameLetters_sublist fewer) fewer.length_le)
  free a mem hole number isNumber player isPlayer :=
    apart.free a (fewer.subset mem) hole number (isNumber.trans_le (sameLetters_sublist fewer a)) player
      (isPlayer.trans_le fewer.length_le)

lemma PlainDistinct.perm {names names' : List String} (distinct : PlainDistinct names) (perm : names.Perm names') :
    PlainDistinct names' where
  distinct := by
    refine (perm.pairwise_iff ?_).mp distinct.distinct
    exact fun {a b} distinct plain plain' same => distinct plain' plain same.symm
  free a mem := distinct.free a (perm.mem_iff.mpr mem)

lemma PlainDistinct.sublist {names names' : List String} (distinct : PlainDistinct names')
    (fewer : names.Sublist names') : PlainDistinct names where
  distinct := distinct.distinct.sublist fewer
  free a mem := distinct.free a (fewer.subset mem)

/-! ## In every order -/

/-- How many YAMLs before a place have the letters of a name. -/
def lettersBefore (names : List String) (k : ℕ) (name : String) : ℕ := sameLetters (names.take k) name

/-- A place counts for those after it. -/
lemma lettersBefore_lt {names : List String} {j k : ℕ} {name : String} (place : names[j]? = some name)
    (before : j < k) {other : String} (letters : toLowercase name = toLowercase other) :
    lettersBefore names j name < lettersBefore names k other := by
  have front : (names.take (j + 1)).Sublist (names.take k) := (List.take_prefix_take_left before).sublist
  have here : names.take (j + 1) = names.take j ++ [name] := by
    rw [List.take_add_one, place, Option.toList_some]
  refine lt_of_lt_of_le ?_ (sameLetters_sublist front other)
  rw [here, sameLetters, lettersBefore, sameLetters, ← letters, List.map_append, List.count_append]
  simp

/-- The numbers that the names of a room are expanded with. -/
lemma getElem_countedNames_nil {names : List String} {k : ℕ} {name : String} (place : names[k]? = some name) :
    (countedNames [] names)[k]? = some (expandName (lettersBefore names k name + 1) (k + 1) name) ∧
      lettersBefore names k name < sameLetters names name ∧ k < names.length := by
  have inside := (List.getElem?_eq_some_iff.mp place).1
  refine ⟨?_, ?_, inside⟩
  · have numbers := getElem_countedNames place []
    rw [List.count_nil, List.length_nil, Nat.add_zero, Nat.zero_add] at numbers
    exact numbers
  · have all := lettersBefore_lt place inside rfl
    rwa [lettersBefore.eq_def names names.length, List.take_length] at all

/-- Where the names of a room without holes are different, and those with holes apart, all are different in any
order and none is reserved. -/
lemma countedNames_distinct {names : List String} (plain : PlainDistinct names) (apart : HolesApart names) :
    ((countedNames [] names).map toLowercase).Nodup ∧
      ∀ name ∈ countedNames [] names, isReservedName name = false := by
  have places : ∀ {k : ℕ} {counted : String}, (countedNames [] names)[k]? = some counted → ∃ name,
      names[k]? = some name ∧ counted = expandName (lettersBefore names k name + 1) (k + 1) name := by
    intro k counted found
    have inside := (List.getElem?_eq_some_iff.mp found).1
    rw [length_countedNames] at inside
    have place := List.getElem?_eq_getElem inside
    exact ⟨_, place, Option.some.inj (found.symm.trans (getElem_countedNames_nil place).1)⟩
  constructor
  · refine List.pairwise_map.mpr (List.pairwise_iff_getElem.mpr fun j k inJ inK before same => ?_)
    obtain ⟨a, placeA, expandedA⟩ := places (List.getElem?_eq_getElem inJ)
    obtain ⟨b, placeB, expandedB⟩ := places (List.getElem?_eq_getElem inK)
    rw [expandedA, expandedB] at same
    obtain ⟨insideA, isA⟩ := List.getElem?_eq_some_iff.mp placeA
    obtain ⟨insideB, isB⟩ := List.getElem?_eq_some_iff.mp placeB
    by_cases hole : HasHole a ∨ HasHole b
    case pos =>
      have notMeet := List.pairwise_iff_getElem.mp apart.apart j k insideA insideB before
      rw [isA, isB] at notMeet
      refine notMeet hole
        ⟨lettersBefore names j a, ?_, lettersBefore names k b, ?_, j, ?_, k, ?_, before.ne, ?_, same⟩
      · exact List.mem_range.mpr (getElem_countedNames_nil placeA).2.1
      · exact List.mem_range.mpr (getElem_countedNames_nil placeB).2.1
      · exact List.mem_range.mpr insideA
      · exact List.mem_range.mpr insideB
      · exact fun letters => (lettersBefore_lt placeA before letters).ne
    case neg =>
      obtain ⟨plainA, plainB⟩ := not_or.mp hole
      have other := List.pairwise_iff_getElem.mp plain.distinct j k insideA insideB before
      rw [isA, isB] at other
      rw [expandName_of_not_hasHole plainA _ _ 1 1, expandName_of_not_hasHole plainB _ _ 1 1] at same
      exact other plainA plainB same
  · intro counted mem
    obtain ⟨k, inside, rfl⟩ := List.getElem_of_mem mem
    obtain ⟨name, place, expanded⟩ := places (List.getElem?_eq_getElem inside)
    rw [expanded]
    have there := List.mem_of_getElem? place
    obtain ⟨_, isNumber, isPlace⟩ := getElem_countedNames_nil place
    by_cases hole : HasHole name
    case pos => exact apart.free name there hole _ isNumber _ isPlace
    case neg =>
      rw [expandName_of_not_hasHole hole _ _ 1 1]
      exact plain.free name there hole

/-! ## What the check keeps -/

/-- A name without holes is among the counted ones. -/
lemma mem_countedNames {names : List String} {name : String} (mem : name ∈ names) (plain : ¬ HasHole name) :
    expandName 1 1 name ∈ countedNames [] names := by
  obtain ⟨k, inside, rfl⟩ := List.getElem_of_mem mem
  have counted := (getElem_countedNames_nil (List.getElem?_eq_getElem inside)).1
  rw [expandName_of_not_hasHole plain _ _ 1 1] at counted
  exact List.mem_of_getElem? counted

/-- A name that passes the check differs from those before. -/
lemma PlainDistinct.add {names players : List String} {name : String} {accepted : String × List String}
    (plain : PlainDistinct names) (known : ∀ player ∈ (countedNames [] names).map toLowercase, player ∈ players)
    (valid : validatePlayerName name players (names.map toLowercase).reverse = .ok accepted) :
    PlainDistinct (names ++ [name]) := by
  obtain ⟨_, _, rfl, notReserved, free⟩ := validatePlayerName_ok valid
  rw [getApPlayerName_fst] at notReserved free
  constructor
  · refine List.pairwise_append.mpr ⟨plain.distinct, List.pairwise_singleton _ _, fun a mem b isName => ?_⟩
    obtain rfl := List.mem_singleton.mp isName
    intro plainA plainB same
    rw [expandName_of_not_hasHole plainB _ _ 1 1, ← same] at free
    exact free (known _ (List.mem_map_of_mem (mem_countedNames mem plainA)))
  · intro a mem plainA
    rcases List.mem_append.mp mem with before | isName
    · exact plain.free a before plainA
    · obtain rfl := List.mem_singleton.mp isName
      rwa [expandName_of_not_hasHole plainA _ _ 1 1] at notReserved

/-- The documents that pass have names that differ from those before in the order of the check. -/
lemma PlainDistinct.upload {I : Type} {room : LobbyRoom I} {session : LobbySession}
    {checks : UploadedDocument I → Except String Unit} {ownGamesNb : ℤ} {names players : List String}
    {documents : List (UploadedDocument I)} (plain : PlainDistinct names)
    (known : ∀ player ∈ (countedNames [] names).map toLowercase, player ∈ players)
    (valid : validateDocuments room session checks ownGamesNb players (names.map toLowercase).reverse documents =
      .ok ()) : PlainDistinct (names ++ documents.map (·.parsed.name)) := by
  induction documents generalizing ownGamesNb names players with
  | nil =>
    rw [List.map_nil, List.append_nil]
    exact plain
  | cons first rest ih =>
    obtain ⟨playerName, counted, _, accepted, valid⟩ := validateDocuments_cons valid
    have added := plain.add known accepted
    obtain ⟨_, _, made, _, _⟩ := validatePlayerName_ok accepted
    have isName : playerName = (getApPlayerName first.parsed.name (names.map toLowercase).reverse).1 :=
      congrArg Prod.fst made
    have isCounted : counted = ((names ++ [first.parsed.name]).map toLowercase).reverse := by
      rw [List.map_append, List.reverse_append]
      exact congrArg Prod.snd made
    rw [List.map_cons, List.append_cons]
    rw [isCounted] at valid
    refine ih added (fun player mem => ?_) valid
    rw [countedNames_append, List.map_append] at mem
    rcases List.mem_append.mp mem with before | new
    · exact List.mem_cons_of_mem _ (known player before)
    · rw [List.append_nil] at new
      have new : player = toLowercase playerName := isName ▸ List.mem_singleton.mp new
      exact new ▸ List.mem_cons_self

/-! ## Rooms -/

section
variable {I : Type} [LinearOrder I]

/-- The names of the YAMLs of a room. -/
def LobbyTables.roomNames (db : LobbyTables I) (roomId : I) : List String :=
  (db.yamls.filter fun yaml => yaml.roomId = roomId).map (·.playerName)

/-- What Archipelago calls the players of a room. -/
def LobbyTables.archipelagoNames (db : LobbyTables I) (roomId : I) : List String :=
  apPlayerNames [] (slotYamls ((db.yamlsForRoom roomId).map (·.withoutContent)))

/-- Archipelago's names are different, in any case of letters, and none is reserved. -/
def LobbyTables.DistinctNames (db : LobbyTables I) (roomId : I) : Prop :=
  ((db.archipelagoNames roomId).map toLowercase).Nodup ∧
    ∀ name ∈ db.archipelagoNames roomId, isReservedName name = false

/-- With the documents of an upload the names with holes are still apart. -/
def HolesStayApart (db : LobbyTables I) (roomId : I) (documents : List (UploadedDocument I)) : Prop :=
  HolesApart (db.roomNames roomId ++ documents.map (·.parsed.name))

/-- What holds of every room. -/
def LobbyTables.NamesApart (db : LobbyTables I) : Prop :=
  ∀ roomId, PlainDistinct (db.roomNames roomId) ∧ HolesApart (db.roomNames roomId)

lemma LobbyTables.NamesApart.sublist {db db' : LobbyTables I} (apart : db.NamesApart)
    (fewer : db'.yamls.Sublist db.yamls) : db'.NamesApart := by
  intro roomId
  have names : (db'.roomNames roomId).Sublist (db.roomNames roomId) := (fewer.filter _).map _
  exact ⟨(apart roomId).1.sublist names, (apart roomId).2.sublist names⟩

lemma ReachedBy.namesApart {db : LobbyTables I} (reached : ReachedBy HolesStayApart db) : db.NamesApart := by
  induction reached with
  | empty rooms => exact fun _ => ⟨⟨.nil, fun a mem => (by cases mem)⟩, ⟨.nil, fun a mem => (by cases mem)⟩⟩
  | changeRooms rooms _ ih => exact ih
  | removeYaml yamlId _ ih => exact ih.sublist List.filter_sublist
  | deleteYaml roomId yamlId session _ ih => exact ih.sublist (LobbyTables.deleteYaml_sublist _ _ _ _)
  | deleteBundle roomId bundleId session _ ih => exact ih.sublist (LobbyTables.deleteBundle_sublist _ _ _ _)
  | @upload db db' roomId session checks refuses documents bundleId _ apart accepted ih =>
    obtain ⟨room, ownerId, found, _, valid, added⟩ := LobbyTables.uploadYaml_ok accepted
    obtain ⟨rfl, _, _⟩ := LobbyTables.addYamls_ok added
    have isRoom : room.id = roomId := by simpa using List.find?_some found
    have new : ∀ other, (documents.map fun document => document.toYaml roomId bundleId ownerId).filter
        (fun yaml => yaml.roomId = other) =
          if other = roomId then documents.map fun document => document.toYaml roomId bundleId ownerId else [] := by
      intro other
      split
      case isTrue here =>
        refine List.filter_eq_self.mpr fun yaml mem => ?_
        obtain ⟨document, _, rfl⟩ := List.mem_map.mp mem
        exact decide_eq_true here.symm
      case isFalse elsewhere =>
        refine List.filter_eq_nil_iff.mpr fun yaml mem here => ?_
        obtain ⟨document, _, rfl⟩ := List.mem_map.mp mem
        exact elsewhere (of_decide_eq_true here).symm
    have ofRoom : ∀ other, LobbyTables.roomNames ⟨db.rooms, db.yamls ++ documents.map fun document =>
        document.toYaml roomId bundleId ownerId⟩ other =
          db.roomNames other ++ if other = roomId then documents.map (·.parsed.name) else [] := by
      intro other
      rw [LobbyTables.roomNames, List.filter_append, List.map_append, new]
      split
      · rw [List.map_map]
        rfl
      · rfl
    intro other
    rw [ofRoom]
    split
    case isFalse =>
      rw [List.append_nil]
      exact ih other
    case isTrue here =>
      subst here
      refine ⟨?_, apart⟩
      have sorted : PlainDistinct ((db.yamlsForRoom other).map (·.playerName)) :=
        (ih other).1.perm ((db.yamlsForRoom_perm other).symm.map _)
      rw [parseAndValidateYamlsForRoom, isRoom] at valid
      dsimp only at valid
      rw [playersInRoom_eq, List.append_nil] at valid
      refine (sorted.upload (fun player mem => mem) valid).perm ?_
      exact ((db.yamlsForRoom_perm other).map _).append_right _

/-- The names of a room stay distinct as long as no upload brings a name with a hole that could meet another. -/
theorem distinctNames_of_holesApart {db : LobbyTables I} (reached : ReachedBy HolesStayApart db) (roomId : I) :
    db.DistinctNames roomId := by
  obtain ⟨plain, apart⟩ := reached.namesApart roomId
  have order : (db.roomNames roomId).Perm
      ((slotYamls ((db.yamlsForRoom roomId).map (·.withoutContent))).map (·.playerName)) := by
    have ids : (((db.yamlsForRoom roomId).map (·.withoutContent)).map (·.id)).Nodup := by
      rw [List.map_map]
      exact reached.wellNamed.roomIds roomId
    refine List.Perm.trans ?_ ((slotYamls_perm ids).symm.map _)
    rw [List.map_map]
    exact (db.yamlsForRoom_perm roomId).symm.map _
  rw [LobbyTables.DistinctNames, LobbyTables.archipelagoNames, apPlayerNames_eq]
  exact countedNames_distinct (plain.perm order) (apart.perm order)

end

/-- A user uploads a YAML with the name to the open room. -/
def uploadAs (db : LobbyTables ℕ) (newId : ℕ) (name : String) : Except String (LobbyTables ℕ) :=
  db.uploadYaml 1 ⟨false, some 30⟩ (fun _ => .ok ()) false [⟨newId, "", ⟨.name "Clique", name⟩⟩] newId

/-- The room with two YAMLs, uploaded one after the other. -/
def roomOfTwo (name name' : String) : LobbyTables ℕ :=
  { openRoom with yamls := [⟨5, 5, 1, 30, name, "", none⟩, ⟨6, 6, 1, 30, name', "", none⟩] }

/-- The room with the first of them. -/
def roomOfOne (name : String) : LobbyTables ℕ := { openRoom with yamls := [⟨5, 5, 1, 30, name, "", none⟩] }

/-- "X{player}" is X1 when it is uploaded, and X2 once "X2" is there too. -/
theorem player_hole_meets : ∃ db : LobbyTables ℕ, Reached db ∧ ¬ db.DistinctNames 1 := by
  refine ⟨roomOfTwo "X\x7bplayer\x7d" "X2", ?_, ?_⟩
  · have first : Reached (roomOfOne "X\x7bplayer\x7d") :=
      .upload (.empty _) trivial (show uploadAs openRoom 5 "X\x7bplayer\x7d" = .ok _ by rfl)
    exact .upload first trivial (show uploadAs _ 6 "X2" = .ok _ by rfl)
  · intro distinct
    have names : (roomOfTwo "X\x7bplayer\x7d" "X2").archipelagoNames 1 = ["X2", "X2"] := by decide +kernel
    have nodup := distinct.1
    rw [names] at nodup
    exact absurd nodup (by decide)

theorem number_hole_distinct : (roomOfTwo "Bob\x7bnumber\x7d" "Carl").DistinctNames 1 := by
  have first : ReachedBy HolesStayApart (roomOfOne "Bob\x7bnumber\x7d") :=
    .upload (.empty _) ⟨by decide +kernel, by decide +kernel⟩
      (show uploadAs openRoom 5 "Bob\x7bnumber\x7d" = .ok _ by rfl)
  exact distinctNames_of_holesApart (.upload first ⟨by decide +kernel, by decide +kernel⟩
    (show uploadAs _ 6 "Carl" = .ok _ by rfl)) 1

end ArchipelagoXL.Lobby
