import ArchipelagoXL.Lobby.Names
import Mathlib.Data.List.Sort
import Mathlib.Order.Basic

/-!
# Uploads and deletions

What `upload_yaml`, `delete_yaml` and `delete_bundle` (`lobby/src/views/room/main.rs`) do to the YAMLs of the
rooms: an upload is checked document by document against the YAMLs of the room and added as one bundle
(`parse_and_validate_yamls_for_room` in `lobby/src/yaml.rs`), and a deletion takes a YAML or a bundle away.

What needs a worker or the index is left to the environment: whether a document passes `validate_yaml` and
`extract_features`, and whether the upload is refused for its unsupported games.

A bundle is found by its id alone, and whoever may delete in the room of the address may delete it: the deletion
keeps to its room exactly when the bundle is there (`deleteBundle_own_iff`).
-/

namespace ArchipelagoXL.Lobby

/-! ## The tables -/

/-- Rust `Session`, of a request that is logged in; one that came with the API key has no user. -/
structure LobbySession where
  isAdmin : Bool
  userId : Option ℤ
deriving DecidableEq

/-- The record of a room, as far as it decides on uploads and deletions. -/
structure LobbyRoom (I : Type) where
  id : I
  authorId : ℤ
  isClosed : Bool
  isBundleRoom : Bool
  yamlLimitPerUser : Option ℤ
  yamlLimitBypassList : List ℤ
deriving DecidableEq

/-- The row of a YAML, with where it belongs and what it says. -/
structure StoredYaml (I : Type) where
  id : I
  bundleId : I
  roomId : I
  ownerId : ℤ
  playerName : String
  content : String
  editedContent : Option String
deriving DecidableEq

/-- Rust `current_content`. -/
def StoredYaml.currentContent {I : Type} (yaml : StoredYaml I) : String := yaml.editedContent.getD yaml.content

/-- The rooms and the YAMLs of the lobby. -/
structure LobbyTables (I : Type) where
  rooms : List (LobbyRoom I)
  yamls : List (StoredYaml I)

/-- A document of an upload, with the id that its row gets. -/
structure UploadedDocument (I : Type) where
  newId : I
  document : String
  parsed : YamlFile

section
variable {I : Type} [LinearOrder I]

namespace LobbyTables

/-- Rust `get_room`. -/
def getRoom (db : LobbyTables I) (roomId : I) : Option (LobbyRoom I) := db.rooms.find? fun room => room.id = roomId

/-- Rust `get_yamls_for_room`. -/
def yamlsForRoom (db : LobbyTables I) (roomId : I) : List (StoredYaml I) :=
  (db.yamls.filter fun yaml => yaml.roomId = roomId).insertionSort fun a b => a.id ≤ b.id

/-- Rust `get_bundle_by_id`; nothing says in which order the rows come. -/
def getBundleById (db : LobbyTables I) (bundleId : I) : Except String (StoredYaml I × List (StoredYaml I)) :=
  match db.yamls.filter fun yaml => yaml.bundleId = bundleId with
  | [] => .error "This YAML bundle does not exist"
  | first :: rest => .ok (first, rest)

/-- Rust `remove_bundle`. -/
def removeBundle (db : LobbyTables I) (bundleId : I) : LobbyTables I :=
  { db with yamls := db.yamls.filter fun yaml => yaml.bundleId ≠ bundleId }

/-- Rust `remove_yaml`. -/
def removeYaml (db : LobbyTables I) (yamlId : I) : LobbyTables I :=
  { db with yamls := db.yamls.filter fun yaml => yaml.id ≠ yamlId }

end LobbyTables

/-! ## Uploads -/

/-- Who may upload more than the limit. -/
def LobbyRoom.allowBypass (room : LobbyRoom I) (session : LobbySession) : Bool :=
  session.isAdmin || session.userId == some room.authorId ||
    session.userId.any fun userId => room.yamlLimitBypassList.contains userId

/-- The check of the limit for a document. -/
def LobbyRoom.checkLimit (room : LobbyRoom I) (session : LobbySession) (ownGamesNb : ℤ) : Except String Unit :=
  match room.yamlLimitPerUser with
  | none => .ok ()
  | some limit =>
    if limit ≤ ownGamesNb ∧ room.allowBypass session = false then
      .error ("The room only allows " ++ toString limit ++ " game(s) per person. Cannot upload.")
    else .ok ()

/-- The loop of `parse_and_validate_yamls_for_room`; `checks` stands for `validate_yaml` and
`extract_features`. -/
def validateDocuments (room : LobbyRoom I) (session : LobbySession)
    (checks : UploadedDocument I → Except String Unit) :
    ℤ → List String → List String → List (UploadedDocument I) → Except String Unit
  | _, _, _, [] => .ok ()
  | ownGamesNb, playersInRoom, playerCounter, document :: rest => do
    room.checkLimit session ownGamesNb
    let (playerName, playerCounter) ← validatePlayerName document.parsed.name playersInRoom playerCounter
    let _ ← validateGame document.parsed.game
    checks document
    validateDocuments room session checks (ownGamesNb + 1) (toLowercase playerName :: playersInRoom) playerCounter
      rest

/-- The names of some YAMLs, lowercased, and what the counter has counted then. -/
def playersInRoom : List String → List String → List String × List String
  | playerCounter, [] => ([], playerCounter)
  | playerCounter, name :: rest =>
    let (playerName, playerCounter) := getApPlayerName name playerCounter
    let (players, playerCounter) := playersInRoom playerCounter rest
    (toLowercase playerName :: players, playerCounter)

/-- Rust `parse_and_validate_yamls_for_room`. -/
def parseAndValidateYamlsForRoom (db : LobbyTables I) (room : LobbyRoom I) (session : LobbySession)
    (checks : UploadedDocument I → Except String Unit) (documents : List (UploadedDocument I)) :
    Except String Unit :=
  let yamlsInRoom := db.yamlsForRoom room.id
  let ownGamesNb := yamlsInRoom.countP fun yaml => some yaml.ownerId == session.userId
  let (players, playerCounter) := playersInRoom [] (yamlsInRoom.map (·.playerName))
  validateDocuments room session checks ownGamesNb players playerCounter documents

/-- The row of a document. -/
def UploadedDocument.toYaml (document : UploadedDocument I) (roomId bundleId : I) (ownerId : ℤ) : StoredYaml I :=
  ⟨document.newId, bundleId, roomId, ownerId, document.parsed.name, document.document, none⟩

/-- The transaction of `upload_yaml`: the ids of the rows are to be new, and the database takes no text with the
character NUL. -/
def LobbyTables.addYamls (db : LobbyTables I) (rows : List (StoredYaml I)) : Except String (LobbyTables I) :=
  if ((db.yamls ++ rows).map (·.id)).Nodup ∧ ∀ row ∈ rows, '\x00' ∉ row.playerName.toList then
    .ok { db with yamls := db.yamls ++ rows }
  else .error "Database error"

/-- Rust `upload_yaml`, with the documents that `parse_raw_yamls` has read; `refuses` says that the room takes no
unsupported games and there are some. -/
def LobbyTables.uploadYaml (db : LobbyTables I) (roomId : I) (session : LobbySession)
    (checks : UploadedDocument I → Except String Unit) (refuses : Bool) (documents : List (UploadedDocument I))
    (bundleId : I) : Except String (LobbyTables I) :=
  match db.getRoom roomId with
  | none => .error "Unknown room"
  | some room => do
    if room.isClosed then throw "This room is closed, you're late"
    parseAndValidateYamlsForRoom db room session checks documents
    if refuses then throw "The following games are not supported on this lobby"
    match session.userId with
    | none => throw "No user"
    | some ownerId => db.addYamls (documents.map fun document => document.toYaml roomId bundleId ownerId)

/-! ## Deletions -/

/-- Rust `is_my_room`. -/
def LobbyRoom.isMyRoom (room : LobbyRoom I) (session : LobbySession) : Bool :=
  session.isAdmin || session.userId == some room.authorId

/-- The checks of `delete_bundle`; a session without a user is no owner to compare with. -/
def LobbyTables.checkDeleteBundle (db : LobbyTables I) (roomId bundleId : I) (session : LobbySession) :
    Except String Unit :=
  match db.getRoom roomId with
  | none => .error "Unknown room"
  | some room => do
    if room.isClosed then throw "This room is closed, you're late"
    let (first, _) ← db.getBundleById bundleId
    match session.userId with
    | none => throw "No user"
    | some userId =>
      if first.ownerId ≠ userId ∧ room.isMyRoom session = false then
        throw "Can't delete a YAML bundle that isn't yours"

/-- Rust `delete_bundle`: the tables afterwards, and the error if there is one. -/
def LobbyTables.deleteBundle (db : LobbyTables I) (roomId bundleId : I) (session : LobbySession) :
    LobbyTables I × Except String Unit :=
  match db.checkDeleteBundle roomId bundleId session with
  | .error e => (db, .error e)
  | .ok () => (db.removeBundle bundleId, .ok ())

/-- The checks of `delete_yaml`. -/
def LobbyTables.checkDeleteYaml (db : LobbyTables I) (roomId yamlId : I) (session : LobbySession) :
    Except String Unit :=
  match db.getRoom roomId with
  | none => .error "Unknown room"
  | some room => do
    if room.isClosed then throw "This room is closed, you're late"
    match db.yamls.find? fun yaml => yaml.id = yamlId ∧ yaml.roomId = roomId with
    | none => throw "Record not found"
    | some yaml =>
      match session.userId with
      | none => throw "No user"
      | some userId =>
        if yaml.ownerId ≠ userId ∧ room.isMyRoom session = false then
          throw "Can't delete a yaml file that isn't yours"
        if room.isBundleRoom = true ∧ room.isMyRoom session = false then
          throw "Can't delete an individual yaml in a bundled room, delete the whole YAML bundle"

/-- Rust `delete_yaml`. -/
def LobbyTables.deleteYaml (db : LobbyTables I) (roomId yamlId : I) (session : LobbySession) :
    LobbyTables I × Except String Unit :=
  match db.checkDeleteYaml roomId yamlId session with
  | .error e => (db, .error e)
  | .ok () => (db.removeYaml yamlId, .ok ())

/-! ## Who deletes a bundle -/

variable {db : LobbyTables I} {roomId bundleId : I} {session : LobbySession}

end

section
variable {I : Type} [LinearOrder I]

/-- The tables that accepted uploads and deletions lead to, one at a time, while the rooms change and each upload
meets a condition; `removeYaml` is what `delete_yaml_api` comes to, which looks at the room and its generation
before. -/
inductive ReachedBy (C : LobbyTables I → I → List (UploadedDocument I) → Prop) : LobbyTables I → Prop where
  | empty (rooms) : ReachedBy C ⟨rooms, []⟩
  | changeRooms {db} (rooms) : ReachedBy C db → ReachedBy C { db with rooms := rooms }
  | upload {db db' roomId session checks refuses documents bundleId} :
    ReachedBy C db →
    C db roomId documents →
    db.uploadYaml roomId session checks refuses documents bundleId = .ok db' →
    ReachedBy C db'
  | removeYaml {db} (yamlId) : ReachedBy C db → ReachedBy C (db.removeYaml yamlId)
  | deleteYaml {db} (roomId yamlId session) : ReachedBy C db → ReachedBy C (db.deleteYaml roomId yamlId session).1
  | deleteBundle {db} (roomId bundleId session) :
    ReachedBy C db → ReachedBy C (db.deleteBundle roomId bundleId session).1

/-- The tables that accepted uploads and deletions lead to. -/
abbrev Reached : LobbyTables I → Prop := ReachedBy fun _ _ _ => True

variable {db db' : LobbyTables I} {roomId bundleId yamlId : I} {session : LobbySession} {refuses : Bool}
  {checks : UploadedDocument I → Except String Unit} {documents : List (UploadedDocument I)}

/-- An accepted upload adds its rows and changes nothing else. -/
lemma LobbyTables.uploadYaml_ok
    (accepted : db.uploadYaml roomId session checks refuses documents bundleId = .ok db') :
    ∃ room ownerId, db.getRoom roomId = some room ∧ session.userId = some ownerId ∧
      parseAndValidateYamlsForRoom db room session checks documents = .ok () ∧
      db.addYamls (documents.map fun document => document.toYaml roomId bundleId ownerId) = .ok db' := by
  rw [uploadYaml] at accepted
  split at accepted
  case h_1 => cases accepted
  case h_2 room found =>
    cases closed : room.isClosed with
    | true =>
      rw [closed] at accepted
      cases accepted
    | false =>
      rw [closed] at accepted
      rcases valid : parseAndValidateYamlsForRoom db room session checks documents with e | ⟨⟨⟩⟩
      case error =>
        rw [valid] at accepted
        cases accepted
      case ok =>
        rw [valid] at accepted
        cases refuses with
        | true => cases accepted
        | false =>
          cases user : session.userId with
          | none =>
            rw [user] at accepted
            cases accepted
          | some ownerId =>
            rw [user] at accepted
            exact ⟨room, ownerId, found, rfl, valid, accepted⟩

lemma LobbyTables.addYamls_ok {rows : List (StoredYaml I)} (added : db.addYamls rows = .ok db') :
    db' = { db with yamls := db.yamls ++ rows } ∧ ((db.yamls ++ rows).map (·.id)).Nodup ∧
      ∀ row ∈ rows, '\x00' ∉ row.playerName.toList := by
  rw [addYamls] at added
  split at added
  case isTrue taken =>
    cases added
    exact ⟨rfl, taken⟩
  case isFalse => cases added

/-- A deletion leaves some of the rows, in their order. -/
lemma LobbyTables.deleteYaml_sublist (db : LobbyTables I) (roomId yamlId : I) (session : LobbySession) :
    (db.deleteYaml roomId yamlId session).1.yamls.Sublist db.yamls := by
  rw [deleteYaml]
  split
  · exact List.Sublist.refl _
  · exact List.filter_sublist

lemma LobbyTables.deleteBundle_sublist (db : LobbyTables I) (roomId bundleId : I) (session : LobbySession) :
    (db.deleteBundle roomId bundleId session).1.yamls.Sublist db.yamls := by
  rw [deleteBundle]
  split
  · exact List.Sublist.refl _
  · exact List.filter_sublist

omit [LinearOrder I] in
/-- A document that passes is below the limit and has a name that is not taken, and those after it pass then. -/
lemma validateDocuments_cons {room : LobbyRoom I} {ownGamesNb : ℤ} {players playerCounter : List String}
    {first : UploadedDocument I} {rest : List (UploadedDocument I)}
    (valid : validateDocuments room session checks ownGamesNb players playerCounter (first :: rest) = .ok ()) :
    ∃ playerName counted, room.checkLimit session ownGamesNb = .ok () ∧
      validatePlayerName first.parsed.name players playerCounter = .ok (playerName, counted) ∧
      validateDocuments room session checks (ownGamesNb + 1) (toLowercase playerName :: players) counted rest =
        .ok () := by
  rw [validateDocuments] at valid
  rcases limit : room.checkLimit session ownGamesNb with e | ⟨⟨⟩⟩
  case error =>
    rw [limit] at valid
    cases valid
  case ok =>
    rcases name : validatePlayerName first.parsed.name players playerCounter with e | ⟨playerName, counted⟩
    case error =>
      rw [limit, name] at valid
      cases valid
    case ok =>
      rcases game : validateGame first.parsed.game with e | gameName
      case error =>
        rw [limit, name, game] at valid
        cases valid
      case ok =>
        rw [limit, name, game] at valid
        rcases passes : checks first with e | ⟨⟨⟩⟩
        case error =>
          simp only [passes, bind, Except.bind] at valid
          cases valid
        case ok =>
          simp only [passes, bind, Except.bind] at valid
          exact ⟨playerName, counted, rfl, rfl, valid⟩

omit [LinearOrder I] in
/-- The documents of an upload that passes have names that the lobby takes. -/
lemma accepted_of_validateDocuments {room : LobbyRoom I} {ownGamesNb : ℤ} {players playerCounter : List String}
    (valid : validateDocuments room session checks ownGamesNb players playerCounter documents = .ok ()) :
    ∀ document ∈ documents, AcceptedName document.parsed.name := by
  induction documents generalizing ownGamesNb players playerCounter with
  | nil => exact fun document mem => by cases mem
  | cons first rest ih =>
    obtain ⟨playerName, counted, _, name, valid⟩ := validateDocuments_cons valid
    exact List.forall_mem_cons.mpr ⟨⟨players, playerCounter, _, name⟩, ih valid⟩

/-- The rows of the tables that uploads and deletions lead to. -/
structure LobbyTables.WellNamed (db : LobbyTables I) : Prop where
  ids : (db.yamls.map (·.id)).Nodup
  accepted : ∀ yaml ∈ db.yamls, AcceptedName yaml.playerName
  noNul : ∀ yaml ∈ db.yamls, '\x00' ∉ yaml.playerName.toList

omit [LinearOrder I] in
lemma LobbyTables.WellNamed.sublist (well : db.WellNamed) {db' : LobbyTables I} (fewer : db'.yamls.Sublist db.yamls) :
    db'.WellNamed where
  ids := well.ids.sublist (fewer.map _)
  accepted yaml mem := well.accepted yaml (fewer.subset mem)
  noNul yaml mem := well.noNul yaml (fewer.subset mem)

lemma ReachedBy.wellNamed {C : LobbyTables I → I → List (UploadedDocument I) → Prop} (reached : ReachedBy C db) :
    db.WellNamed := by
  induction reached with
  | empty rooms => exact ⟨List.nodup_nil, fun yaml mem => (by cases mem), fun yaml mem => (by cases mem)⟩
  | changeRooms rooms _ ih => exact ⟨ih.ids, ih.accepted, ih.noNul⟩
  | removeYaml yamlId _ ih => exact ih.sublist List.filter_sublist
  | deleteYaml roomId yamlId session _ ih => exact ih.sublist (LobbyTables.deleteYaml_sublist _ _ _ _)
  | deleteBundle roomId bundleId session _ ih => exact ih.sublist (LobbyTables.deleteBundle_sublist _ _ _ _)
  | upload _ _ accepted ih =>
    obtain ⟨room, ownerId, _, _, valid, added⟩ := LobbyTables.uploadYaml_ok accepted
    obtain ⟨rfl, ids, noNul⟩ := LobbyTables.addYamls_ok added
    refine ⟨ids, fun yaml mem => ?_, fun yaml mem => ?_⟩
    · rcases List.mem_append.mp mem with before | new
      · exact ih.accepted yaml before
      · obtain ⟨document, there, rfl⟩ := List.mem_map.mp new
        exact accepted_of_validateDocuments valid document there
    · rcases List.mem_append.mp mem with before | new
      · exact ih.noNul yaml before
      · exact noNul yaml new

lemma LobbyTables.yamlsForRoom_perm (db : LobbyTables I) (roomId : I) :
    (db.yamlsForRoom roomId).Perm (db.yamls.filter fun yaml => yaml.roomId = roomId) := List.perm_insertionSort _ _

lemma LobbyTables.mem_yamlsForRoom {yaml : StoredYaml I} :
    yaml ∈ db.yamlsForRoom roomId ↔ yaml ∈ db.yamls ∧ yaml.roomId = roomId := by
  rw [(db.yamlsForRoom_perm roomId).mem_iff, List.mem_filter, decide_eq_true_iff]

lemma LobbyTables.WellNamed.roomIds (well : db.WellNamed) (roomId : I) :
    ((db.yamlsForRoom roomId).map (·.id)).Nodup := by
  have fewer : ((db.yamls.filter fun yaml => yaml.roomId = roomId).map (·.id)).Nodup :=
    well.ids.sublist (List.filter_sublist.map _)
  exact ((db.yamlsForRoom_perm roomId).map _).nodup_iff.mpr fewer

end

end ArchipelagoXL.Lobby
