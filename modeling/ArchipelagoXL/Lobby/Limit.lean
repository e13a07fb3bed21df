import ArchipelagoXL.Lib.Interleave
import ArchipelagoXL.Lobby.Uploads

/-!
# The limit for one person

Uploads at once: each reads its room and the room's YAMLs, validates its documents against them for as long as
that takes and inserts its rows in a transaction (`upload_yaml` in `lobby/src/views/room/main.rs`). How many YAMLs
the user has in the room is read once, with the YAMLs.

A user stays below the limit while no request inserts after another of theirs has, since it read
(`ownGames_le_limit`).
-/

namespace ArchipelagoXL.Lobby

open Interleave

/-! ## Requests at once -/

/-- A request to upload, with the documents that were read from it; `checks` and `refuses` are as in
`uploadYaml`. -/
structure UploadRequest (I : Type) where
  roomId : I
  session : LobbySession
  checks : UploadedDocument I → Except String Unit
  refuses : Bool
  documents : List (UploadedDocument I)
  bundleId : I

/-- The points of an upload, each before its next access; the last knows how many YAMLs the user had. -/
inductive UploadTask (I : Type) where
  | readsRoom (r : UploadRequest I)
  | readsYamls (r : UploadRequest I) (room : LobbyRoom I)
  | inserts (r : UploadRequest I) (ownerId : ℤ) (ownGamesNb : ℕ)

/-- What the environment decides. -/
inductive UploadInput (I : Type) where
  | upload (r : UploadRequest I)
  | deleteYaml (roomId yamlId : I) (session : LobbySession)
  | deleteBundle (roomId bundleId : I) (session : LobbySession)
  | go
  | fail

section
variable {I : Type} [LinearOrder I]

/-- How many YAMLs a user has in a room. -/
def LobbyTables.ownGames (db : LobbyTables I) (roomId : I) (userId : ℤ) : ℕ :=
  db.yamls.countP fun yaml => yaml.roomId = roomId && yaml.ownerId = userId

/-- The rows of a request. -/
def UploadRequest.rows (r : UploadRequest I) (ownerId : ℤ) : List (StoredYaml I) :=
  r.documents.map fun document => document.toYaml r.roomId r.bundleId ownerId

/-- One step of an upload. -/
def UploadTask.step (db : LobbyTables I) :
    UploadTask I → UploadInput I → Option (LobbyTables I × Option (UploadTask I))
  | .readsRoom r, .go =>
    match db.getRoom r.roomId with
    | none => some (db, none)
    | some room => some (db, if room.isClosed then none else some (.readsYamls r room))
  | .readsYamls r room, .go =>
    match parseAndValidateYamlsForRoom db room r.session r.checks r.documents, r.session.userId with
    | .ok (), some ownerId =>
      some (db, if r.refuses then none else some (.inserts r ownerId (db.ownGames room.id ownerId)))
    | _, _ => some (db, none)
  | .inserts r ownerId _, .go =>
    match db.addYamls (r.rows ownerId) with
    | .ok db' => some (db', none)
    | .error _ => some (db, none)
  | _, .fail => some (db, none)
  | _, _ => none

/-- The start of an upload, and the deletions. -/
def UploadInput.start (db : LobbyTables I) : UploadInput I → Option (LobbyTables I × Option (UploadTask I))
  | .upload r => some (db, some (.readsRoom r))
  | .deleteYaml roomId yamlId session => some ((db.deleteYaml roomId yamlId session).1, none)
  | .deleteBundle roomId bundleId session => some ((db.deleteBundle roomId bundleId session).1, none)
  | .go | .fail => none

end

/-- Uploads and deletions as a machine. -/
def uploadMachine (I : Type) [LinearOrder I] :
    Machine (LobbyTables I) (Option (UploadTask I)) (UploadInput I) :=
  fun _ db t x =>
    match t with
    | some task => task.step db x
    | none => x.start db

section
variable {I : Type} [LinearOrder I]

/-- The user is no admin. -/
def AsUser (userId : ℤ) : Option (UploadTask I) → UploadInput I → Prop
  | none, .upload r => r.session.userId = some userId → r.session.isAdmin = false
  | _, _ => True

/-- No request of the user inserts after another of them has, in the room, since it read the YAMLs. -/
def InTurn (roomId : I) (userId : ℤ) (db : LobbyTables I) : Option (UploadTask I) → UploadInput I → Prop
  | some (.inserts r ownerId ownGamesNb), .go =>
    r.roomId = roomId → ownerId = userId → db.ownGames roomId userId ≤ ownGamesNb
  | _, _ => True

/-- A room with a limit for a user who has no YAML in it. -/
structure Limited (db : LobbyTables I) (roomId : I) (userId limit : ℤ) : Prop where
  room : ∃ room, db.getRoom roomId = some room ∧ room.yamlLimitPerUser = some limit ∧ room.authorId ≠ userId ∧
    userId ∉ room.yamlLimitBypassList
  positive : 0 < limit
  none_ : db.ownGames roomId userId = 0

/-! ## What is counted -/

variable {db db' : LobbyTables I} {roomId : I} {userId limit : ℤ}

/-- The YAMLs that the check counts are those of the user. -/
lemma ownGames_eq (db : LobbyTables I) (roomId : I) (userId : ℤ) {session : LobbySession}
    (user : session.userId = some userId) :
    (db.yamlsForRoom roomId).countP (fun yaml => some yaml.ownerId == session.userId) = db.ownGames roomId userId := by
  rw [(db.yamlsForRoom_perm roomId).countP_eq, List.countP_filter, LobbyTables.ownGames]
  refine List.countP_congr fun yaml _ => ?_
  rw [user]
  simp [and_comm]

/-- A deletion leaves no more. -/
lemma ownGames_sublist (fewer : db'.yamls.Sublist db.yamls) : db'.ownGames roomId userId ≤ db.ownGames roomId userId :=
  fewer.countP_le

omit [LinearOrder I] in
/-- Documents that pass keep a user to the limit, who has no right to bypass it. -/
lemma length_le_of_validateDocuments {room : LobbyRoom I} {session : LobbySession}
    {checks : UploadedDocument I → Except String Unit} {ownGamesNb : ℤ} {players playerCounter : List String}
    {documents : List (UploadedDocument I)} (isLimit : room.yamlLimitPerUser = some limit)
    (noBypass : room.allowBypass session = false)
    (valid : validateDocuments room session checks ownGamesNb players playerCounter documents = .ok ()) :
    documents = [] ∨ ownGamesNb + documents.length ≤ limit := by
  induction documents generalizing ownGamesNb players playerCounter with
  | nil => exact .inl rfl
  | cons first rest ih =>
    obtain ⟨playerName, counted, below, _, valid⟩ := validateDocuments_cons valid
    have below : ownGamesNb < limit := by
      rw [LobbyRoom.checkLimit, isLimit] at below
      dsimp only at below
      split at below
      case isTrue => cases below
      case isFalse within => exact not_le.mp fun reached => within ⟨reached, noBypass⟩
    refine .inr ?_
    rw [List.length_cons]
    rcases ih valid with rfl | within
    · rw [List.length_nil]
      omega
    · push_cast
      omega

/-- The rows of a request count for its user in its room. -/
lemma ownGames_addYamls (roomId : I) (userId : ℤ) {r : UploadRequest I} {ownerId : ℤ}
    (added : db.addYamls (r.rows ownerId) = .ok db') :
    db'.rooms = db.rooms ∧ db'.ownGames roomId userId = db.ownGames roomId userId +
      if r.roomId = roomId ∧ ownerId = userId then r.documents.length else 0 := by
  obtain ⟨rfl, _, _⟩ := LobbyTables.addYamls_ok added
  refine ⟨rfl, ?_⟩
  rw [LobbyTables.ownGames, List.countP_append, LobbyTables.ownGames]
  congr 1
  rw [UploadRequest.rows, List.countP_map]
  split
  case isTrue own =>
    refine List.countP_eq_length.mpr fun document _ => ?_
    simpa [UploadedDocument.toYaml] using own
  case isFalse other =>
    refine List.countP_eq_zero.mpr fun document _ => ?_
    simpa [UploadedDocument.toYaml] using other

/-! ## What a request knows -/

/-- What a thread knows: the request is not an admin's if it is the user's, and once its documents have passed
they keep the user to the limit, counted from what it read. -/
def Knows (rooms : List (LobbyRoom I)) (roomId : I) (userId limit : ℤ) : Option (UploadTask I) → Prop
  | none => True
  | some (.readsRoom r) => r.session.userId = some userId → r.session.isAdmin = false
  | some (.readsYamls r room) =>
    (r.session.userId = some userId → r.session.isAdmin = false) ∧
      (rooms.find? fun room => room.id = r.roomId) = some room
  | some (.inserts r ownerId ownGamesNb) =>
    r.roomId = roomId → ownerId = userId → r.documents = [] ∨ (ownGamesNb + r.documents.length : ℤ) ≤ limit

/-- A request whose documents pass keeps the user to the limit. -/
lemma knows_of_valid {r : UploadRequest I} {room : LobbyRoom I} {ownerId : ℤ}
    (isLimited : ∃ room, db.getRoom roomId = some room ∧ room.yamlLimitPerUser = some limit ∧ room.authorId ≠ userId ∧
      userId ∉ room.yamlLimitBypassList)
    (knows : Knows db.rooms roomId userId limit (some (.readsYamls r room))) (user : r.session.userId = some ownerId)
    (valid : parseAndValidateYamlsForRoom db room r.session r.checks r.documents = .ok ()) :
    Knows db.rooms roomId userId limit (some (.inserts r ownerId (db.ownGames room.id ownerId))) := by
  rintro rfl rfl
  obtain ⟨noAdmin, found⟩ := knows
  obtain ⟨room', found', isLimit, notAuthor, notListed⟩ := isLimited
  obtain rfl : room = room' := Option.some.inj (found.symm.trans found')
  have noBypass : room.allowBypass r.session = false := by
    rw [LobbyRoom.allowBypass, noAdmin user, user]
    simp [notAuthor.symm, notListed]
  rw [parseAndValidateYamlsForRoom] at valid
  dsimp only at valid
  rw [ownGames_eq db room.id ownerId user] at valid
  exact length_le_of_validateDocuments isLimit noBypass valid

lemma rooms_deleteYaml (db : LobbyTables I) (roomId yamlId : I) (session : LobbySession) :
    (db.deleteYaml roomId yamlId session).1.rooms = db.rooms := by
  rw [LobbyTables.deleteYaml]
  split <;> rfl

lemma rooms_deleteBundle (db : LobbyTables I) (roomId bundleId : I) (session : LobbySession) :
    (db.deleteBundle roomId bundleId session).1.rooms = db.rooms := by
  rw [LobbyTables.deleteBundle]
  split <;> rfl

/-- A step keeps the user to the limit. -/
lemma uploadMachine_keeps {rooms : List (LobbyRoom I)} {i : ℕ} {t t' : Option (UploadTask I)} {x : UploadInput I}
    (isLimited : ∃ room, (rooms.find? fun room => room.id = roomId) = some room ∧ room.yamlLimitPerUser = some limit ∧
      room.authorId ≠ userId ∧ userId ∉ room.yamlLimitBypassList)
    (same : db.rooms = rooms) (within : (db.ownGames roomId userId : ℤ) ≤ limit)
    (knows : Knows rooms roomId userId limit t) (asUser : AsUser userId t x) (inTurn : InTurn roomId userId db t x)
    (st : uploadMachine I i db t x = some (db', t')) :
    (db'.rooms = rooms ∧ (db'.ownGames roomId userId : ℤ) ≤ limit) ∧ Knows rooms roomId userId limit t' := by
  subst same
  have fewer : db'.rooms = db.rooms → db'.yamls.Sublist db.yamls →
      db'.rooms = db.rooms ∧ (db'.ownGames roomId userId : ℤ) ≤ limit := by
    intro same fewer
    refine ⟨same, le_trans ?_ within⟩
    exact_mod_cast ownGames_sublist fewer
  cases t with
  | none =>
    cases x with
    | upload r =>
      cases st
      exact ⟨⟨rfl, within⟩, asUser⟩
    | deleteYaml other yamlId session =>
      cases st
      exact ⟨fewer (rooms_deleteYaml _ _ _ _) (LobbyTables.deleteYaml_sublist _ _ _ _), trivial⟩
    | deleteBundle other bundleId session =>
      cases st
      exact ⟨fewer (rooms_deleteBundle _ _ _ _) (LobbyTables.deleteBundle_sublist _ _ _ _), trivial⟩
    | go => cases st
    | fail => cases st
  | some task =>
    cases x with
    | go =>
      cases task with
      | readsRoom r =>
        simp only [uploadMachine, UploadTask.step] at st
        split at st
        case h_1 =>
          cases st
          exact ⟨⟨rfl, within⟩, trivial⟩
        case h_2 room found =>
          cases st
          refine ⟨⟨rfl, within⟩, ?_⟩
          split
          · trivial
          · exact ⟨knows, found⟩
      | readsYamls r room =>
        simp only [uploadMachine, UploadTask.step] at st
        split at st
        case h_1 ownerId valid user =>
          cases st
          refine ⟨⟨rfl, within⟩, ?_⟩
          split
          · trivial
          · exact knows_of_valid isLimited knows user valid
        case h_2 =>
          cases st
          exact ⟨⟨rfl, within⟩, trivial⟩
      | inserts r ownerId ownGamesNb =>
        simp only [uploadMachine, UploadTask.step] at st
        split at st
        case h_1 db₁ added =>
          cases st
          obtain ⟨same, counted⟩ := ownGames_addYamls roomId userId added
          refine ⟨⟨same, ?_⟩, trivial⟩
          rw [counted]
          split
          case isTrue own =>
            have before := inTurn own.1 own.2
            rcases knows own.1 own.2 with noRows | below
            · rw [noRows]
              exact within
            · push_cast
              omega
          case isFalse => exact within
        case h_2 =>
          cases st
          exact ⟨⟨rfl, within⟩, trivial⟩
    | fail =>
      cases task <;> (cases st; exact ⟨⟨rfl, within⟩, trivial⟩)
    | _ => cases task <;> cases st

/-- A user who is no admin, not the author and not in the list stays below the limit of a room, while no request of
theirs inserts after another has since it read. -/
theorem ownGames_le_limit {s₀ s : Conf (LobbyTables I) (Option (UploadTask I))}
    {tr : List (Event (Option (UploadTask I)) (UploadInput I))} (limited : Limited s₀.shared roomId userId limit)
    (idle : ∀ i, s₀.pc i = none)
    (run : Run (uploadMachine I) (Cond.here fun db t x => AsUser userId t x ∧ InTurn roomId userId db t x) s₀ tr s) :
    (s.shared.ownGames roomId userId : ℤ) ≤ limit := by
  refine (run.everyThreadUnder (J := fun db : LobbyTables I => db.rooms = s₀.shared.rooms ∧
    (db.ownGames roomId userId : ℤ) ≤ limit) (P := fun _ t => Knows s₀.shared.rooms roomId userId limit t)
    (c := fun db t x => AsUser userId t x ∧ InTurn roomId userId db t x) ?_ (fun i => ?_) (fun cond => cond) ?_).1.2
  · refine ⟨rfl, ?_⟩
    rw [limited.none_]
    exact limited.positive.le
  · rw [idle i]
    trivial
  · intro i w t x w' t' kept knows cond st
    obtain ⟨kept', knows'⟩ := uploadMachine_keeps limited.room kept.1 kept.2 knows cond.1 cond.2 st
    exact ⟨kept', knows', fun _ => id⟩

end

/-- A room that allows one YAML for each person. -/
def oneEach : Conf (LobbyTables ℕ) (Option (UploadTask ℕ)) :=
  ⟨⟨[⟨1, 10, false, false, some 1, []⟩], []⟩, fun _ => none⟩

/-- A user's request with one YAML. -/
def oneUpload (newId : ℕ) (name : String) : UploadRequest ℕ :=
  ⟨1, ⟨false, some 30⟩, fun _ => .ok (), false, [⟨newId, "", ⟨.name "Clique", name⟩⟩], newId⟩

/-- Both requests read before either inserts. -/
def atOnce : List (ℕ × UploadInput ℕ) :=
  [(0, .upload (oneUpload 5 "Bob")), (1, .upload (oneUpload 6 "Carl")), (0, .go), (0, .go), (1, .go), (1, .go),
    (0, .go), (1, .go)]

/-- The second request begins when the first is done. -/
def oneAfterOther : List (ℕ × UploadInput ℕ) :=
  [(0, .upload (oneUpload 5 "Bob")), (0, .go), (0, .go), (0, .go), (1, .upload (oneUpload 6 "Carl")), (1, .go),
    (1, .go)]

def inTurnOnly (s : Conf (LobbyTables ℕ) (Option (UploadTask ℕ))) (i : ℕ) : UploadInput ℕ → Bool
  | .upload r => !r.session.isAdmin
  | .go =>
    match s.pc i with
    | some (.inserts _ _ ownGamesNb) => s.shared.ownGames 1 30 ≤ ownGamesNb
    | _ => true
  | _ => true

def asUserOnly (_ : Conf (LobbyTables ℕ) (Option (UploadTask ℕ))) (_ : ℕ) : UploadInput ℕ → Bool
  | .upload r => !r.session.isAdmin
  | _ => true

lemma asUser_of_only {tr : List (Event (Option (UploadTask ℕ)) (UploadInput ℕ))} {s i x}
    (ok : asUserOnly s i x = true) : Cond.here (fun _ t x => AsUser 30 t x) tr s i x := by
  rw [Cond.here]
  cases s.pc i with
  | none =>
    cases x with
    | upload r => exact fun _ => by simpa [asUserOnly] using ok
    | _ => trivial
  | some task => trivial

lemma inTurn_of_only {tr : List (Event (Option (UploadTask ℕ)) (UploadInput ℕ))} {s i x}
    (ok : inTurnOnly s i x = true) :
    Cond.here (fun db t x => AsUser 30 t x ∧ InTurn 1 30 db t x) tr s i x := by
  constructor
  · have asUser : Cond.here (fun _ t x => AsUser 30 t x) tr s i x := by
      refine asUser_of_only ?_
      cases x with
      | upload r => exact ok
      | _ => rfl
    exact asUser
  · cases task : s.pc i with
    | none => trivial
    | some op =>
      cases op with
      | inserts r ownerId ownGamesNb =>
        cases x with
        | go =>
          simp only [inTurnOnly, task] at ok
          exact fun _ _ => of_decide_eq_true ok
        | _ => trivial
      | _ => trivial

/-- Two requests of a user at once leave two YAMLs where one is allowed. -/
theorem two_yamls_at_once :
    Limited oneEach.shared 1 30 1 ∧
      ∃ tr s, Run (uploadMachine ℕ) (Cond.here fun _ t x => AsUser 30 t x) oneEach tr s ∧
        s.shared.ownGames 1 30 = 2 := by
  have limited : Limited oneEach.shared 1 30 1 := ⟨⟨_, rfl, rfl, by decide, by decide⟩, by decide, rfl⟩
  have run : Run (uploadMachine ℕ) (Cond.here fun _ t x => AsUser 30 t x) oneEach _ _ :=
    exec_run_checked (l := atOnce) asUser_of_only (by decide +kernel)
  exact ⟨limited, _, _, run, by decide +kernel⟩

theorem one_yaml_in_turn :
    ((finalOf (uploadMachine ℕ) oneEach oneAfterOther).shared.ownGames 1 30 : ℤ) ≤ 1 :=
  ownGames_le_limit ⟨⟨_, rfl, rfl, by decide, by decide⟩, by decide, rfl⟩ (fun _ => rfl)
    (exec_run_checked inTurn_of_only (by decide +kernel))

end ArchipelagoXL.Lobby
