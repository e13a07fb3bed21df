import ArchipelagoXL.Tools.Values
import ArchipelagoXL.Lib.Utf8

/-!
# Sessions

What a request may do in the lobby goes by its session: that of the admin token, that of the private cookie that comes
back, or else a new one (`from_request_sync`). A cookie keeps the rights that its user had when it was made, and none is
ever taken back: a client may send any that it was given.

`acts_by_right` says for any number of requests with any cookies what the session of each goes back to, and what it may
do with rooms, templates and users.
-/

namespace ArchipelagoXL.Lobby.Auth

open Tools (parseI64)

/-! ## Sessions -/

/-- Rust `Session`. -/
structure Session where
  isAdmin : Bool
  isLoggedIn : Bool
  roomCreationAllowed : Bool
  userId : Option ℤ
  redirectOnLogin : Option String
  uuid : ℕ
deriving DecidableEq

/-- Rust `SessionRecovery`, a session of an earlier version. -/
structure SessionRecovery where
  isAdmin : Bool
  isLoggedIn : Bool
  roomCreationAllowed : Bool
  userId : Option ℤ
deriving DecidableEq

def SessionRecovery.toSession (val : SessionRecovery) (uuid : ℕ) : Session :=
  ⟨val.isAdmin, val.isLoggedIn, val.roomCreationAllowed, val.userId, none, uuid⟩

/-- What a private cookie says. -/
inductive Cookie where
  | session (session : Session)
  | recovery (session : SessionRecovery)

/-- How a process of the lobby is set up: Rust `DiscordConfig`, `AdminToken` and `LobbyConfig`. -/
structure Setup where
  admins : List ℤ
  bannedUsers : List ℤ
  adminToken : String
  adminRoomsOnly : Bool

/-- What of a request decides on its session; there is no cookie when it can't be opened. -/
structure Request where
  authorization : Option String
  xApiKey : Option String
  cookie : Option Cookie

/-- Rust `is_ascii_whitespace`. -/
def isAsciiWhitespace (b : UInt8) : Bool := b == 9 || b == 10 || b == 12 || b == 13 || b == 32

/-- Rust `split_once`. -/
def splitOnce (sep : Char) (text : List Char) : Option (List Char × List Char) :=
  match text.dropWhile (· ≠ sep) with
  | [] => none
  | _ :: rest => some (text.takeWhile (· ≠ sep), rest)

/-- Rust `decode_basic_auth`; `base64` is the standard engine. -/
def decodeBasicAuth (base64 : List UInt8 → Option (List UInt8)) (value : String) : Option (String × String) :=
  if !"Basic ".toList.isPrefixOf value.toList then none
  else do
    let bytes := (Utf8.bytes (value.toList.drop "Basic ".length)).dropWhile isAsciiWhitespace
    let decoded ← base64 bytes
    let decoded ← String.fromUTF8? (.mk decoded.toArray)
    let (username, password) ← splitOnce ':' decoded.toList
    return (.ofList username, .ofList password)

/-- Whether a request has the admin token, in the one header or in the other. -/
def Request.hasToken (base64 : List UInt8 → Option (List UInt8)) (setup : Setup) (request : Request) : Bool :=
  ((request.authorization.bind (decodeBasicAuth base64)).any fun creds =>
    creds.1 = "admin" && creds.2 = setup.adminToken) || request.xApiKey = some setup.adminToken

/-- Rust `_from_request_sync`: a session, and what is saved. -/
def fromRequestSync' (base64 : List UInt8 → Option (List UInt8)) (setup : Setup) (request : Request) (newV4 : ℕ) :
    Session × List Session :=
  if request.hasToken base64 setup then (⟨true, true, true, none, none, newV4⟩, [])
  else
    match request.cookie with
    | some (.session session) => (session, [])
    | some (.recovery recovery) => (recovery.toSession newV4, [recovery.toSession newV4])
    | none => (⟨false, false, false, none, none, newV4⟩, [⟨false, false, false, none, none, newV4⟩])

/-- Rust `is_banned`. -/
def isBanned (userId : ℤ) (setup : Setup) : Bool := setup.bannedUsers.contains userId

/-- Rust `from_request_sync`: a banned user is logged out. -/
def fromRequestSync (base64 : List UInt8 → Option (List UInt8)) (setup : Setup) (request : Request) (newV4 : ℕ × ℕ) :
    Session × List Session :=
  let (session, saved) := fromRequestSync' base64 setup request newV4.1
  match session.userId with
  | some userId =>
    if isBanned userId setup then
      let defaultSession := ⟨false, false, false, none, some "/", newV4.2⟩
      (defaultSession, saved ++ [defaultSession])
    else (session, saved)
  | none => (session, saved)

/-! ## Requests -/

/-- Rust `DiscordUser` of the table of users. -/
structure DiscordUser where
  username : String
  roomCreationAllowed : Bool

/-- A room template, as far as it decides on what is done with it. -/
structure Template where
  authorId : ℤ
  global : Bool

/-- The users, the authors of the rooms and the templates. -/
structure Tables (R : Type) where
  users : ℤ → Option DiscordUser
  rooms : R → Option ℤ
  templates : R → Option Template

/-- What a request asks for. What else is checked before something is written is in `form` and `rest`. -/
inductive Route (R : Type) where
  | page
  | loginDiscord (redirect : Option String)
  | loginDiscordCallback (discordUser : Except String (String × String))
  | createRoomSubmit (room : R) (fromTemplate : Option R) (form rest : Except String Unit)
  | editRoomSubmit (room : R) (rest : Except String Unit)
  | deleteRoom (room : R)
  | createTplSubmit (tpl : R) (tplGlobal : Bool) (rest : Except String Unit)
  | editTplSubmit (tpl : R) (tplGlobal : Bool) (rest : Except String Unit)
  | deleteTemplate (tpl : R)
  | setRoomCreationAllowed (id : String) (allowed : Bool)

/-- Why nothing was done. A message is answered with a redirect to `redirectTo`, if the handler has set it by then. -/
inductive Failure where
  | unauthorized
  | refused (message : String) (redirectTo : Option String)
  | status (code : ℕ) (message : String)
  | panicked

inductive Response where
  | page
  | redirect (uri : String)
  | discord
  | done
  | status (code : ℕ) (message : String)
  | crashed

/-- A request that comes in, with which of the cookies that were ever given out, the path that it asks for and the new
ids that are drawn. -/
structure Call (R : Type) where
  setup : Setup
  authorization : Option String
  xApiKey : Option String
  cookie : Option ℕ
  path : String
  newV4 : ℕ → ℕ
  route : Route R

/-- A request that was answered. -/
structure Entry (R : Type) where
  setup : Setup
  byToken : Bool
  session : Session
  route : Route R
  before : Tables R
  done : Bool
  response : Response

/-- The lobby with the cookies that were given out, and for the record what was answered. -/
structure LobbyState (R : Type) where
  issued : List Cookie
  tables : Tables R
  log : List (Entry R)

section
variable {R : Type} [DecidableEq R] [ToString R]
variable (base64 : List UInt8 → Option (List UInt8)) (parseIntError : String → String) (dbError : String)

/-- Rust `LoggedInSession::user_id`. -/
def Session.getUserId (session : Session) : Except Failure ℤ :=
  match session.userId with
  | some userId => .ok userId
  | none => .error .panicked

/-- Rust `LoggedInSession::from_request`. -/
def Session.loggedIn (session : Session) : Except Failure Unit :=
  if session.isAdmin || session.userId.isSome then .ok () else .error .unauthorized

/-- Rust `AdminSession::from_request`. -/
def Session.admin (session : Session) : Except Failure Unit :=
  if session.isAdmin then .ok () else .error .unauthorized

/-- Whether a session is an admin's or that of the author. -/
def Session.isMine (session : Session) (authorId : ℤ) : Bool :=
  session.isAdmin || session.userId = some authorId

/-- Rust `get_room_creation_allowed`. -/
def Tables.getRoomCreationAllowed (db : Tables R) (userId : ℤ) : Bool :=
  ((db.users userId).map DiscordUser.roomCreationAllowed).getD false

/-- Rust `upsert_discord_user`. -/
def Tables.upsertDiscordUser (db : Tables R) (userId : ℤ) (username : String) : Tables R :=
  { db with users := Function.update db.users userId (some ⟨username, db.getRoomCreationAllowed userId⟩) }

/-- An `anyhow` error after which the client goes to `redirectTo`. -/
def orRefuse {A : Type} (result : Except String A) (redirectTo : Option String) : Except Failure A :=
  match result with
  | .ok a => .ok a
  | .error message => .error (.refused message redirectTo)

/-- A check that ends the handler. -/
def ensure (check : Bool) (failure : Failure) : Except Failure Unit := if check then .ok () else .error failure

/-- Who may create rooms. The redirect isn't set when this fails. -/
def mayCreateRoom (setup : Setup) (session : Session) (db : Tables R) : Except Failure Unit :=
  if setup.adminRoomsOnly then do
    let isAllowed ← if session.isAdmin then .ok true else session.getUserId.map db.getRoomCreationAllowed
    ensure isAllowed (.refused "Room creation is restricted to admins only" none)
  else .ok ()

/-- The template that a room is made from. -/
def mayUseTemplate (session : Session) (db : Tables R) : Option R → Except Failure Unit
  | none => .ok ()
  | some templateId => do
    let notFound := Failure.refused "The given template couldn't be found" (some "/create-room")
    match db.templates templateId with
    | none => .error notFound
    | some tpl => if tpl.global then .ok () else do ensure ((← session.getUserId) = tpl.authorId) notFound

/-- A row by its id. -/
def orNotFound {A : Type} (row : Option A) (redirectTo : Option String) : Except Failure A :=
  match row with
  | some a => .ok a
  | none => .error (.refused "Record not found" redirectTo)

/-- Rust `create_room_submit`. -/
def createRoomSubmit (setup : Setup) (session : Session) (db : Tables R) (room : R) (fromTemplate : Option R)
    (form rest : Except String Unit) : Except Failure (Tables R × Response) := do
  session.loggedIn
  mayCreateRoom setup session db
  orRefuse form (some "/create-room")
  mayUseTemplate session db fromTemplate
  let userId ← session.getUserId
  orRefuse rest (some "/create-room")
  ensure ((db.rooms room).isNone && (db.users userId).isSome) (.refused dbError (some "/create-room"))
  return ({ db with rooms := Function.update db.rooms room (some userId) }, .redirect ("/room/" ++ toString room))

/-- Rust `edit_room_submit`, which leaves the author as it is. -/
def editRoomSubmit (session : Session) (db : Tables R) (room : R) (rest : Except String Unit) :
    Except Failure (Tables R × Response) := do
  session.loggedIn
  let back := some ("/edit-room/" ++ toString room)
  let authorId ← orNotFound (db.rooms room) back
  ensure (session.isMine authorId) (.refused "You're not allowed to edit this room" back)
  orRefuse rest back
  return (db, .redirect ("/room/" ++ toString room))

/-- Rust `delete_room`. -/
def deleteRoom (session : Session) (db : Tables R) (room : R) : Except Failure (Tables R × Response) := do
  session.loggedIn
  let authorId ← orNotFound (db.rooms room) (some "/")
  ensure (session.isMine authorId) (.refused "You're not allowed to delete this room" (some "/"))
  return ({ db with rooms := Function.update db.rooms room none }, .redirect "/")

/-- Rust `create_tpl_submit`. -/
def createTplSubmit (session : Session) (db : Tables R) (tpl : R) (tplGlobal : Bool) (rest : Except String Unit) :
    Except Failure (Tables R × Response) := do
  session.loggedIn
  orRefuse rest (some "/room-templates/create")
  let userId ← session.getUserId
  ensure ((db.templates tpl).isNone && (db.users userId).isSome) (.refused dbError (some "/room-templates/create"))
  return ({ db with templates := Function.update db.templates tpl (some ⟨userId, tplGlobal && session.isAdmin⟩) },
    .redirect "/room-templates")

/-- Rust `edit_tpl_submit`, which leaves the author as it is. -/
def editTplSubmit (session : Session) (db : Tables R) (tpl : R) (tplGlobal : Bool) (rest : Except String Unit) :
    Except Failure (Tables R × Response) := do
  session.loggedIn
  let back := some ("/room-templates/" ++ toString tpl)
  let row ← orNotFound (db.templates tpl) back
  ensure (session.isMine row.authorId) (.refused "You're not allowed to edit this room template" back)
  orRefuse rest back
  return ({ db with
    templates := Function.update db.templates tpl (some ⟨row.authorId, tplGlobal && session.isAdmin⟩) },
    .redirect "/room-templates")

/-- Rust `delete_template`. -/
def deleteTemplate (session : Session) (db : Tables R) (tpl : R) : Except Failure (Tables R × Response) := do
  session.loggedIn
  let row ← orNotFound (db.templates tpl) (some "/")
  ensure (session.isMine row.authorId) (.refused "You're not allowed to delete this room template" (some "/"))
  return ({ db with templates := Function.update db.templates tpl none }, .redirect "/room-templates")

/-- Rust `add_room_creation_allowed_user` and `remove_room_creation_allowed_user`. -/
def setRoomCreationAllowed (session : Session) (db : Tables R) (id : String) (allowed : Bool) :
    Except Failure (Tables R × Response) := do
  session.admin
  match parseI64 id with
  | none => .error (.status 400 "Invalid Discord ID")
  | some discordId =>
    match db.users discordId with
    | none => .error (.status 500 s!"User {discordId} not found")
    | some user =>
      let row := { user with roomCreationAllowed := allowed }
      return ({ db with users := Function.update db.users discordId (some row) }, .done)

/-- Rust `login_discord`: a session, saved. -/
def loginDiscord (session : Session) (redirect : Option String) : Session :=
  match redirect with
  | some uri => if "/".toList.isPrefixOf uri.toList then { session with redirectOnLogin := some uri } else session
  | none => session

/-- Rust `login_discord_callback`: what is written, the session that is saved and where the client goes. -/
def loginDiscordCallback (setup : Setup) (session : Session) (db : Tables R)
    (discordUser : Except String (String × String)) : Except Failure (Tables R × Session × Response) := do
  let user ← orRefuse discordUser (some "/")
  match parseI64 user.1 with
  | none => .error (.refused (parseIntError user.1) (some "/"))
  | some userId =>
    let db := db.upsertDiscordUser userId user.2
    let isAdmin := setup.admins.contains userId
    let session := { session with
      userId := some userId
      isAdmin := isAdmin
      roomCreationAllowed := if setup.adminRoomsOnly then isAdmin || db.getRoomCreationAllowed userId else true
      isLoggedIn := true }
    return (db, session, .redirect (if isBanned userId setup then "/" else session.redirectOnLogin.getD "/"))

/-- What a request comes to: what is written, what is saved and the answer. -/
def handle (setup : Setup) (session : Session) (db : Tables R) :
    Route R → Except Failure (Tables R × List Session × Response)
  | .page => .ok (db, [], .page)
  | .loginDiscord redirect => .ok (db, [loginDiscord session redirect], .discord)
  | .loginDiscordCallback discordUser =>
    (loginDiscordCallback parseIntError setup session db discordUser).map fun r => (r.1, [r.2.1], r.2.2)
  | .createRoomSubmit room fromTemplate form rest =>
    (createRoomSubmit dbError setup session db room fromTemplate form rest).map fun r => (r.1, [], r.2)
  | .editRoomSubmit room rest => (editRoomSubmit session db room rest).map fun r => (r.1, [], r.2)
  | .deleteRoom room => (deleteRoom session db room).map fun r => (r.1, [], r.2)
  | .createTplSubmit tpl tplGlobal rest =>
    (createTplSubmit dbError session db tpl tplGlobal rest).map fun r => (r.1, [], r.2)
  | .editTplSubmit tpl tplGlobal rest => (editTplSubmit session db tpl tplGlobal rest).map fun r => (r.1, [], r.2)
  | .deleteTemplate tpl => (deleteTemplate session db tpl).map fun r => (r.1, [], r.2)
  | .setRoomCreationAllowed id allowed => (setRoomCreationAllowed session db id allowed).map fun r => (r.1, [], r.2)

/-- What a failure is answered with, by the session that is looked up once more (Rust `unauthorized`,
`Error::respond_to`). -/
def Failure.respond (session : Session) (path : String) : Failure → Response
  | .unauthorized => .redirect (if session.isLoggedIn then "/" else "/auth/login?redirect=" ++ path)
  | .refused _ (some redirectTo) => .redirect redirectTo
  | .refused _ none => .crashed
  | .status code message => .status code message
  | .panicked => .crashed

/-- Whether the session is looked up once more. -/
def Failure.looksAgain : Failure → Bool
  | .unauthorized => true
  | .refused _ _ => true
  | _ => false

namespace LobbyState

/-- The request of a call. -/
def request (st : LobbyState R) (call : Call R) : Request :=
  ⟨call.authorization, call.xApiKey, call.cookie.bind fun i => st.issued[i]?⟩

/-- A request is answered. -/
def step (st : LobbyState R) (call : Call R) : LobbyState R :=
  let request := st.request call
  let found := fromRequestSync base64 call.setup request (call.newV4 0, call.newV4 1)
  let entry (done : Bool) (response : Response) : Entry R :=
    ⟨call.setup, request.hasToken base64 call.setup, found.1, call.route, st.tables, done, response⟩
  match handle parseIntError dbError call.setup found.1 st.tables call.route with
  | .ok (tables, saved, response) =>
    ⟨st.issued ++ (found.2 ++ saved).map .session, tables, st.log ++ [entry true response]⟩
  | .error failure =>
    let again := fromRequestSync base64 call.setup request (call.newV4 2, call.newV4 3)
    ⟨st.issued ++ (found.2 ++ if failure.looksAgain then again.2 else []).map .session, st.tables,
      st.log ++ [entry false (failure.respond again.1 call.path)]⟩

/-- The lobby as it was set up, with the cookies of earlier versions. -/
def opened (old : List SessionRecovery) : LobbyState R :=
  ⟨old.map .recovery, ⟨fun _ => none, fun _ => none, fun _ => none⟩, []⟩

/-- What some requests lead to. -/
def after (old : List SessionRecovery) (calls : List (Call R)) : LobbyState R :=
  calls.foldl (step base64 parseIntError dbError) (opened old)

end LobbyState

end

/-! ## Rights -/

section
variable {R : Type}

/-- What a session goes back to, by what was answered before. -/
inductive Session.Warrant (old : List SessionRecovery) (log : List (Entry R)) (s : Session) : Prop
  | visitor : s.isAdmin = false → s.isLoggedIn = false → s.roomCreationAllowed = false → s.userId = none →
    Warrant old log s
  | token (entry : Entry R) : entry ∈ log → entry.byToken = true → s.isAdmin = true → s.isLoggedIn = true →
    s.roomCreationAllowed = true → s.userId = none → Warrant old log s
  | login (entry : Entry R) (id username : String) (userId : ℤ) : entry ∈ log → entry.done = true →
    entry.route = .loginDiscordCallback (.ok (id, username)) → parseI64 id = some userId → s.userId = some userId →
    s.isAdmin = entry.setup.admins.contains userId → s.isLoggedIn = true →
    s.roomCreationAllowed =
      (!entry.setup.adminRoomsOnly || s.isAdmin || entry.before.getRoomCreationAllowed userId) → Warrant old log s
  | earlier (recovery : SessionRecovery) : recovery ∈ old → s.isAdmin = recovery.isAdmin →
    s.isLoggedIn = recovery.isLoggedIn → s.roomCreationAllowed = recovery.roomCreationAllowed →
    s.userId = recovery.userId → Warrant old log s

/-- What a session may do, by the tables at that time. -/
def May (setup : Setup) (db : Tables R) (s : Session) : Route R → Prop
  | .createRoomSubmit _ fromTemplate _ _ => ∃ userId, s.userId = some userId ∧
    (setup.adminRoomsOnly = true → s.isAdmin = true ∨ db.getRoomCreationAllowed userId = true) ∧
    ∀ tpl ∈ fromTemplate, ∃ row, db.templates tpl = some row ∧ (row.global = true ∨ row.authorId = userId)
  | .editRoomSubmit room _ => ∃ author, db.rooms room = some author ∧ (s.isAdmin = true ∨ s.userId = some author)
  | .deleteRoom room => ∃ author, db.rooms room = some author ∧ (s.isAdmin = true ∨ s.userId = some author)
  | .createTplSubmit _ _ _ => s.userId.isSome
  | .editTplSubmit tpl _ _ => ∃ row, db.templates tpl = some row ∧ (s.isAdmin = true ∨ s.userId = some row.authorId)
  | .deleteTemplate tpl => ∃ row, db.templates tpl = some row ∧ (s.isAdmin = true ∨ s.userId = some row.authorId)
  | .setRoomCreationAllowed _ _ => s.isAdmin = true
  | _ => True

/-- A room that was made for a user. -/
def Entry.CreatesRoom (entry : Entry R) (room : R) (author : ℤ) : Prop :=
  entry.done = true ∧ entry.session.userId = some author ∧
    ∃ fromTemplate form rest, entry.route = .createRoomSubmit room fromTemplate form rest

def Entry.CreatesTemplate (entry : Entry R) (tpl : R) (author : ℤ) : Prop :=
  entry.done = true ∧ entry.session.userId = some author ∧
    ∃ tplGlobal rest, entry.route = .createTplSubmit tpl tplGlobal rest

/-- A template that an admin made global. -/
def Entry.MakesGlobal (entry : Entry R) (tpl : R) : Prop :=
  entry.done = true ∧ entry.session.isAdmin = true ∧
    ∃ rest, entry.route = .createTplSubmit tpl true rest ∨ entry.route = .editTplSubmit tpl true rest

/-- An admin that allows a user to create rooms. -/
def Entry.Allows (entry : Entry R) (userId : ℤ) : Prop :=
  entry.done = true ∧ entry.session.isAdmin = true ∧
    ∃ id, parseI64 id = some userId ∧ entry.route = .setRoomCreationAllowed id true

/-- What is in the tables was put there by those who may. -/
structure Tables.Sourced (log : List (Entry R)) (db : Tables R) : Prop where
  rooms : ∀ room author, db.rooms room = some author → ∃ entry ∈ log, entry.CreatesRoom room author
  templates : ∀ tpl row, db.templates tpl = some row → ∃ entry ∈ log, entry.CreatesTemplate tpl row.authorId
  global : ∀ tpl row, db.templates tpl = some row → row.global = true → ∃ entry ∈ log, entry.MakesGlobal tpl
  users : ∀ userId, db.getRoomCreationAllowed userId = true → ∃ entry ∈ log, entry.Allows userId

/-- A place of the lobby, or one that looks like one. -/
def Slashed (uri : String) : Prop := "/".toList <+: uri.toList

/-- The crash of a creation that is restricted. -/
def Entry.Restricted (entry : Entry R) : Prop :=
  (∃ room fromTemplate form rest, entry.route = .createRoomSubmit room fromTemplate form rest) ∧
    entry.setup.adminRoomsOnly = true ∧ entry.session.isAdmin = false ∧
    ∃ userId, entry.session.userId = some userId ∧ entry.before.getRoomCreationAllowed userId = false

/-- A request that was answered as it may be, after `past`. -/
structure Entry.Rightful (old : List SessionRecovery) (past : List (Entry R)) (entry : Entry R) : Prop where
  session : if entry.byToken then entry.session.isAdmin = true ∧ entry.session.userId = none
    else entry.session.Warrant old past
  notBanned : ∀ userId ∈ entry.session.userId, userId ∉ entry.setup.bannedUsers
  tables : entry.before.Sourced past
  may : entry.done = true → May entry.setup entry.before entry.session entry.route
  slashed : ∀ uri, entry.response = .redirect uri → Slashed uri
  restricted : entry.Restricted → entry.response = .crashed
  crashed : entry.response = .crashed → entry.Restricted ∨ entry.session.isAdmin = true ∧ entry.session.userId = none

end

/-! ## Handlers -/

section
variable {R A B : Type} {setup : Setup} {s : Session} {db : Tables R}

lemma bind_ok {x : Except Failure A} {f : A → Except Failure B} {b : B} :
    x >>= f = .ok b ↔ ∃ a, x = .ok a ∧ f a = .ok b := by
  cases x with
  | ok a =>
    constructor
    · intro ok
      exact ⟨a, rfl, ok⟩
    · intro ok
      obtain ⟨_, isA, ok⟩ := ok
      cases isA
      exact ok
  | error e =>
    constructor
    · intro ok
      cases ok
    · intro ok
      obtain ⟨_, isA, _⟩ := ok
      cases isA

lemma exists_of_map_ok {x : Except Failure A} {f : A → B} {b : B} (ok : x.map f = .ok b) :
    ∃ a, x = .ok a ∧ f a = b := by
  cases x with
  | ok a =>
    cases ok
    exact ⟨a, rfl, rfl⟩
  | error e => cases ok

lemma ensure_ok {check : Bool} {failure : Failure} {u : Unit} : ensure check failure = .ok u ↔ check = true := by
  cases check <;> simp [ensure]

lemma orRefuse_ok {result : Except String A} {back : Option String} {a : A} :
    orRefuse result back = .ok a ↔ result = .ok a := by
  cases result <;> simp [orRefuse]

lemma orNotFound_ok {row : Option A} {back : Option String} {a : A} : orNotFound row back = .ok a ↔ row = some a := by
  cases row <;> simp [orNotFound]

lemma getUserId_ok {userId : ℤ} : s.getUserId = .ok userId ↔ s.userId = some userId := by
  unfold Session.getUserId
  cases s.userId <;> simp

lemma loggedIn_ok {u : Unit} : s.loggedIn = .ok u ↔ s.isAdmin = true ∨ s.userId.isSome := by
  unfold Session.loggedIn
  cases s.isAdmin <;> cases s.userId <;> simp

lemma isMine_iff {author : ℤ} : s.isMine author = true ↔ s.isAdmin = true ∨ s.userId = some author := by
  simp [Session.isMine]

/-- The failures of a request: where the client is sent, and when the handler crashes. -/
def Fails (restricted : Prop) (s : Session) : Failure → Prop
  | .refused _ (some back) => Slashed back
  | .refused _ none => restricted
  | .panicked => s.isAdmin = true ∧ s.userId = none
  | _ => True

def Tame (restricted : Prop) (s : Session) (x : Except Failure A) : Prop := ∀ e, x = .error e → Fails restricted s e

variable {restricted : Prop}

lemma Tame.ok {a : A} : Tame restricted s (.ok a) := by
  intro e isError
  cases isError

lemma Tame.bind {x : Except Failure A} {f : A → Except Failure B} (first : Tame restricted s x)
    (next : ∀ a, x = .ok a → Tame restricted s (f a)) : Tame restricted s (x >>= f) := by
  cases x with
  | ok a => exact next a rfl
  | error e =>
    intro e' isError
    cases isError
    exact first e rfl

lemma Tame.map {x : Except Failure A} (tame : Tame restricted s x) (f : A → B) : Tame restricted s (x.map f) := by
  cases x with
  | ok a => exact .ok
  | error e =>
    intro e' isError
    cases isError
    exact tame e rfl

lemma Tame.loggedIn : Tame restricted s s.loggedIn := by
  intro e isError
  unfold Session.loggedIn at isError
  split at isError <;> cases isError
  trivial

lemma Tame.getUserId (loggedIn : s.loggedIn = .ok ()) : Tame restricted s s.getUserId := by
  intro e isError
  unfold Session.getUserId at isError
  cases none : s.userId with
  | some userId =>
    rw [none] at isError
    cases isError
  | none =>
    rw [none] at isError
    cases isError
    rw [loggedIn_ok, none] at loggedIn
    exact ⟨loggedIn.resolve_right (by simp), none⟩

lemma Tame.ensure {check : Bool} {message back : String} (slashed : Slashed back) :
    Tame restricted s (ensure check (.refused message (some back))) := by
  intro e isError
  unfold Auth.ensure at isError
  split at isError <;> cases isError
  exact slashed

lemma Tame.orRefuse {result : Except String A} {back : String} (slashed : Slashed back) :
    Tame restricted s (orRefuse result (some back)) := by
  intro e isError
  cases result <;> cases isError
  exact slashed

lemma Tame.orNotFound {row : Option A} {back : String} (slashed : Slashed back) :
    Tame restricted s (orNotFound row (some back)) := by
  intro e isError
  cases row <;> cases isError
  exact slashed

lemma slashed_append {back : String} (slashed : Slashed back) (rest : String) : Slashed (back ++ rest) := by
  unfold Slashed
  rw [String.toList_append]
  exact slashed.trans (List.prefix_append _ _)

/-- Who may create rooms, or else the handler crashes. -/
lemma mayCreateRoom_ok {u : Unit} :
    mayCreateRoom setup s db = .ok u ↔ (setup.adminRoomsOnly = true → s.isAdmin = true ∨
      ∃ userId, s.userId = some userId ∧ db.getRoomCreationAllowed userId = true) := by
  unfold mayCreateRoom
  cases setup.adminRoomsOnly with
  | false => simp
  | true =>
    cases s.isAdmin with
    | true => simp [bind_ok, ensure_ok]
    | false =>
      simp only [if_true, Bool.false_eq_true, if_false, bind_ok, ensure_ok, false_or, true_implies]
      constructor
      · rintro ⟨allowed, isAllowed, ok⟩
        cases known : s.userId with
        | none =>
          rw [Session.getUserId, known] at isAllowed
          cases isAllowed
        | some userId =>
          rw [Session.getUserId, known] at isAllowed
          cases isAllowed
          exact ⟨userId, rfl, ok⟩
      · rintro ⟨userId, known, ok⟩
        refine ⟨true, ?_, rfl⟩
        rw [Session.getUserId, known]
        exact congrArg Except.ok ok

lemma mayCreateRoom_error {e : Failure} (loggedIn : s.loggedIn = .ok ())
    (isError : mayCreateRoom setup s db = .error e) :
    setup.adminRoomsOnly = true ∧ s.isAdmin = false ∧
      (∃ userId, s.userId = some userId ∧ db.getRoomCreationAllowed userId = false) ∧
        ∃ message, e = .refused message none := by
  unfold mayCreateRoom at isError
  rw [loggedIn_ok] at loggedIn
  cases only : setup.adminRoomsOnly with
  | false =>
    rw [only] at isError
    cases isError
  | true =>
    rw [only, if_pos rfl] at isError
    cases admin : s.isAdmin with
    | true =>
      rw [admin] at isError
      cases isError
    | false =>
      rw [admin] at isError loggedIn
      obtain ⟨userId, known⟩ := Option.isSome_iff_exists.mp (loggedIn.resolve_left (by simp))
      rw [Session.getUserId, known] at isError
      refine ⟨rfl, rfl, ⟨userId, known, ?_⟩, ?_⟩
      · by_contra allowed
        rw [Bool.not_eq_false] at allowed
        simp only [Except.map, allowed] at isError
        cases isError
      · cases allowed : db.getRoomCreationAllowed userId with
        | true =>
          simp only [Except.map, allowed] at isError
          cases isError
        | false =>
          simp only [Except.map, allowed] at isError
          cases isError
          exact ⟨_, rfl⟩

lemma mayUseTemplate_ok {fromTemplate : Option R} {u : Unit} (ok : mayUseTemplate s db fromTemplate = .ok u) :
    ∀ tpl ∈ fromTemplate, ∃ row, db.templates tpl = some row ∧
      (row.global = true ∨ s.userId = some row.authorId) := by
  intro tpl isTpl
  cases isTpl
  unfold mayUseTemplate at ok
  cases there : db.templates tpl with
  | none =>
    simp only [there] at ok
    cases ok
  | some row =>
    refine ⟨row, rfl, ?_⟩
    simp only [there] at ok
    cases global : row.global with
    | true => exact .inl rfl
    | false =>
      rw [global] at ok
      simp only [Bool.false_eq_true, if_false, bind_ok, ensure_ok, decide_eq_true_eq, getUserId_ok] at ok
      obtain ⟨userId, known, rfl⟩ := ok
      exact .inr known

lemma Tame.mayUseTemplate (loggedIn : s.loggedIn = .ok ()) (fromTemplate : Option R) :
    Tame restricted s (mayUseTemplate s db fromTemplate) := by
  have slashed : Slashed "/create-room" := by unfold Slashed; decide
  cases fromTemplate with
  | none => exact .ok
  | some tpl =>
    unfold Auth.mayUseTemplate
    cases there : db.templates tpl with
    | none =>
      intro e isError
      simp only [there] at isError
      cases isError
      exact slashed
    | some row =>
      simp only [there]
      split
      · exact .ok
      · apply (Tame.getUserId loggedIn).bind
        intro userId _
        exact .ensure slashed

lemma loginDiscordCallback_ok {parseIntError : String → String} {discordUser : Except String (String × String)}
    {out : Tables R × Session × Response}
    (ok : loginDiscordCallback parseIntError setup s db discordUser = .ok out) :
    ∃ id username userId, discordUser = .ok (id, username) ∧ parseI64 id = some userId ∧
      out.1 = db.upsertDiscordUser userId username ∧
      out.2.1 = { s with
        userId := some userId
        isAdmin := setup.admins.contains userId
        roomCreationAllowed := !setup.adminRoomsOnly || setup.admins.contains userId || db.getRoomCreationAllowed userId
        isLoggedIn := true } ∧
      (out.2.2 = .redirect "/" ∨ out.2.2 = .redirect (s.redirectOnLogin.getD "/")) := by
  unfold loginDiscordCallback at ok
  rw [bind_ok] at ok
  obtain ⟨user, isUser, ok⟩ := ok
  rw [orRefuse_ok] at isUser
  cases parsed : parseI64 user.1 with
  | none =>
    simp only [parsed] at ok
    cases ok
  | some userId =>
    simp only [parsed] at ok
    cases ok
    refine ⟨user.1, user.2, userId, isUser, parsed, rfl, ?_, ?_⟩
    · have same :
          (db.upsertDiscordUser userId user.2).getRoomCreationAllowed userId = db.getRoomCreationAllowed userId := by
        unfold Tables.upsertDiscordUser
        rw [Tables.getRoomCreationAllowed]
        simp
      simp only [same]
      cases setup.adminRoomsOnly <;> simp
    · simp only
      split
      · exact .inl rfl
      · exact .inr rfl

variable {dbError : String} {room tpl : R} {form rest : Except String Unit} {tplGlobal : Bool}
  {out : Tables R × Response}

lemma editRoomSubmit_ok [ToString R] (ok : editRoomSubmit s db room rest = .ok out) :
    May setup db s (.editRoomSubmit room rest) ∧ out = (db, .redirect ("/room/" ++ toString room)) := by
  unfold editRoomSubmit at ok
  simp only [bind_ok, orNotFound_ok, ensure_ok, isMine_iff] at ok
  obtain ⟨_, _, author, there, _, mine, _, _, isOut⟩ := ok
  cases isOut
  exact ⟨⟨author, there, mine⟩, rfl⟩

lemma setRoomCreationAllowed_ok {id : String} {allowed : Bool} (ok : setRoomCreationAllowed s db id allowed = .ok out) :
    s.isAdmin = true ∧ ∃ userId, ∃ user : DiscordUser, parseI64 id = some userId ∧
      out = ({ db with users := Function.update db.users userId (some { user with roomCreationAllowed := allowed }) },
        .done) := by
  unfold setRoomCreationAllowed at ok
  rw [bind_ok] at ok
  obtain ⟨_, admin, ok⟩ := ok
  have isAdmin : s.isAdmin = true := by
    unfold Session.admin at admin
    split at admin
    · assumption
    · cases admin
  cases parsed : parseI64 id with
  | none =>
    simp only [parsed] at ok
    cases ok
  | some userId =>
    simp only [parsed] at ok
    cases there : db.users userId with
    | none =>
      simp only [there] at ok
      cases ok
    | some user =>
      simp only [there] at ok
      cases ok
      exact ⟨isAdmin, userId, user, rfl, rfl⟩

variable [DecidableEq R]

lemma deleteRoom_ok (ok : deleteRoom s db room = .ok out) :
    May setup db s (.deleteRoom room) ∧
      out = ({ db with rooms := Function.update db.rooms room none }, .redirect "/") := by
  unfold deleteRoom at ok
  simp only [bind_ok, orNotFound_ok, ensure_ok, isMine_iff] at ok
  obtain ⟨_, _, author, there, _, mine, isOut⟩ := ok
  cases isOut
  exact ⟨⟨author, there, mine⟩, rfl⟩

lemma createTplSubmit_ok (ok : createTplSubmit dbError s db tpl tplGlobal rest = .ok out) :
    ∃ userId, s.userId = some userId ∧
      out = ({ db with templates := Function.update db.templates tpl (some ⟨userId, tplGlobal && s.isAdmin⟩) },
        .redirect "/room-templates") := by
  unfold createTplSubmit at ok
  simp only [bind_ok, orRefuse_ok, getUserId_ok, ensure_ok] at ok
  obtain ⟨_, _, _, _, userId, known, _, _, isOut⟩ := ok
  cases isOut
  exact ⟨userId, known, rfl⟩

lemma deleteTemplate_ok (ok : deleteTemplate s db tpl = .ok out) :
    May setup db s (.deleteTemplate tpl) ∧
      out = ({ db with templates := Function.update db.templates tpl none }, .redirect "/room-templates") := by
  unfold deleteTemplate at ok
  simp only [bind_ok, orNotFound_ok, ensure_ok, isMine_iff] at ok
  obtain ⟨_, _, row, there, _, mine, isOut⟩ := ok
  cases isOut
  exact ⟨⟨row, there, mine⟩, rfl⟩

variable [ToString R]

lemma createRoomSubmit_ok {fromTemplate : Option R}
    (ok : createRoomSubmit dbError setup s db room fromTemplate form rest = .ok out) :
    May setup db s (.createRoomSubmit room fromTemplate form rest) ∧ ∃ userId, s.userId = some userId ∧
      out = ({ db with rooms := Function.update db.rooms room (some userId) },
        .redirect ("/room/" ++ toString room)) := by
  unfold createRoomSubmit at ok
  simp only [bind_ok, mayCreateRoom_ok, orRefuse_ok, getUserId_ok, ensure_ok] at ok
  obtain ⟨_, _, _, allowed, _, _, _, template, userId, known, _, _, _, _, isOut⟩ := ok
  cases isOut
  refine ⟨⟨userId, known, ?_, ?_⟩, userId, known, rfl⟩
  · intro only
    rcases allowed only with admin | ⟨userId', known', allowed⟩
    · exact .inl admin
    · rw [known] at known'
      cases known'
      exact .inr allowed
  · intro tpl isTpl
    obtain ⟨row, there, may⟩ := mayUseTemplate_ok template tpl isTpl
    rw [known] at may
    exact ⟨row, there, may.imp_right fun same => (Option.some.inj same).symm⟩

lemma editTplSubmit_ok (ok : editTplSubmit s db tpl tplGlobal rest = .ok out) :
    ∃ row, db.templates tpl = some row ∧ (s.isAdmin = true ∨ s.userId = some row.authorId) ∧
      out = ({ db with templates := Function.update db.templates tpl (some ⟨row.authorId, tplGlobal && s.isAdmin⟩) },
        .redirect "/room-templates") := by
  unfold editTplSubmit at ok
  simp only [bind_ok, orRefuse_ok, orNotFound_ok, ensure_ok, isMine_iff] at ok
  obtain ⟨_, _, row, there, _, mine, _, _, isOut⟩ := ok
  cases isOut
  exact ⟨row, there, mine, rfl⟩

/-- Nothing but a restricted creation, or a user that isn't there, makes a handler crash. -/
lemma handle_tame (parseIntError : String → String) (dbError : String) (route : Route R) :
    Tame ((∃ room fromTemplate form rest, route = .createRoomSubmit room fromTemplate form rest) ∧
      setup.adminRoomsOnly = true ∧ s.isAdmin = false ∧
        ∃ userId, s.userId = some userId ∧ db.getRoomCreationAllowed userId = false) s
      (handle parseIntError dbError setup s db route) := by
  have root : Slashed "/" := by unfold Slashed; decide
  cases route with
  | page => exact .ok
  | loginDiscord redirect => exact .ok
  | loginDiscordCallback discordUser =>
    apply Tame.map
    unfold loginDiscordCallback
    apply (Tame.orRefuse root).bind
    intro user _
    cases parsed : parseI64 user.1 with
    | none =>
      intro e isError
      simp only at isError
      cases isError
      exact root
    | some userId => exact .ok
  | createRoomSubmit room fromTemplate form rest =>
    have slashed : Slashed "/create-room" := by unfold Slashed; decide
    apply Tame.map
    unfold createRoomSubmit
    apply Tame.loggedIn.bind
    intro _ loggedIn
    apply Tame.bind
    · intro e isError
      obtain ⟨only, noAdmin, notAllowed, message, rfl⟩ := mayCreateRoom_error loggedIn isError
      exact ⟨⟨room, fromTemplate, form, rest, rfl⟩, only, noAdmin, notAllowed⟩
    intro _ _
    apply (Tame.orRefuse slashed).bind
    intro _ _
    apply (Tame.mayUseTemplate loggedIn fromTemplate).bind
    intro _ _
    apply (Tame.getUserId loggedIn).bind
    intro _ _
    apply (Tame.orRefuse slashed).bind
    intro _ _
    apply (Tame.ensure slashed).bind
    intro _ _
    exact .ok
  | editRoomSubmit room rest =>
    have slashed : Slashed ("/edit-room/" ++ toString room) := slashed_append (by unfold Slashed; decide) _
    apply Tame.map
    unfold editRoomSubmit
    apply Tame.loggedIn.bind
    intro _ _
    apply (Tame.orNotFound slashed).bind
    intro _ _
    apply (Tame.ensure slashed).bind
    intro _ _
    apply (Tame.orRefuse slashed).bind
    intro _ _
    exact .ok
  | deleteRoom room =>
    apply Tame.map
    unfold deleteRoom
    apply Tame.loggedIn.bind
    intro _ _
    apply (Tame.orNotFound root).bind
    intro _ _
    apply (Tame.ensure root).bind
    intro _ _
    exact .ok
  | createTplSubmit tpl tplGlobal rest =>
    have slashed : Slashed "/room-templates/create" := by unfold Slashed; decide
    apply Tame.map
    unfold createTplSubmit
    apply Tame.loggedIn.bind
    intro _ loggedIn
    apply (Tame.orRefuse slashed).bind
    intro _ _
    apply (Tame.getUserId loggedIn).bind
    intro _ _
    apply (Tame.ensure slashed).bind
    intro _ _
    exact .ok
  | editTplSubmit tpl tplGlobal rest =>
    have slashed : Slashed ("/room-templates/" ++ toString tpl) := slashed_append (by unfold Slashed; decide) _
    apply Tame.map
    unfold editTplSubmit
    apply Tame.loggedIn.bind
    intro _ _
    apply (Tame.orNotFound slashed).bind
    intro _ _
    apply (Tame.ensure slashed).bind
    intro _ _
    apply (Tame.orRefuse slashed).bind
    intro _ _
    exact .ok
  | deleteTemplate tpl =>
    apply Tame.map
    unfold deleteTemplate
    apply Tame.loggedIn.bind
    intro _ _
    apply (Tame.orNotFound root).bind
    intro _ _
    apply (Tame.ensure root).bind
    intro _ _
    exact .ok
  | setRoomCreationAllowed id allowed =>
    apply Tame.map
    unfold setRoomCreationAllowed
    apply Tame.bind
    · intro e isError
      unfold Session.admin at isError
      split at isError <;> cases isError
      trivial
    intro _ _ e isError
    cases parsed : parseI64 id with
    | none =>
      simp only [parsed] at isError
      cases isError
      trivial
    | some userId =>
      simp only [parsed] at isError
      cases there : db.users userId with
      | none =>
        simp only [there] at isError
        cases isError
        trivial
      | some user =>
        simp only [there] at isError
        cases isError

end

/-! ## Warrants -/

section
variable {R : Type} {old : List SessionRecovery} {log log' : List (Entry R)} {s : Session} {db : Tables R}

lemma Session.Warrant.mono (warrant : s.Warrant old log) (sub : log ⊆ log') : s.Warrant old log' := by
  cases warrant with
  | visitor noAdmin out notAllowed noUser => exact .visitor noAdmin out notAllowed noUser
  | token entry mem byToken admin loggedIn allowed noUser =>
    exact .token entry (sub mem) byToken admin loggedIn allowed noUser
  | login entry id username userId mem done route parsed isUser admin loggedIn allowed =>
    exact .login entry id username userId (sub mem) done route parsed isUser admin loggedIn allowed
  | earlier recovery mem admin loggedIn allowed isUser => exact .earlier recovery mem admin loggedIn allowed isUser

/-- Where a client is sent to after a login doesn't matter. -/
lemma Session.Warrant.redirected (warrant : s.Warrant old log) (uri : Option String) :
    Session.Warrant old log { s with redirectOnLogin := uri } := by
  cases warrant with
  | visitor noAdmin out notAllowed noUser => exact .visitor noAdmin out notAllowed noUser
  | token entry mem byToken admin loggedIn allowed noUser =>
    exact .token entry mem byToken admin loggedIn allowed noUser
  | login entry id username userId mem done route parsed isUser admin loggedIn allowed =>
    exact .login entry id username userId mem done route parsed isUser admin loggedIn allowed
  | earlier recovery mem admin loggedIn allowed isUser => exact .earlier recovery mem admin loggedIn allowed isUser

lemma Tables.Sourced.mono (sourced : db.Sourced log) (sub : log ⊆ log') : db.Sourced log' where
  rooms room author there :=
    have ⟨entry, mem, creates⟩ := sourced.rooms room author there
    ⟨entry, sub mem, creates⟩
  templates tpl row there :=
    have ⟨entry, mem, creates⟩ := sourced.templates tpl row there
    ⟨entry, sub mem, creates⟩
  global tpl row there global :=
    have ⟨entry, mem, makes⟩ := sourced.global tpl row there global
    ⟨entry, sub mem, makes⟩
  users userId allowed :=
    have ⟨entry, mem, allows⟩ := sourced.users userId allowed
    ⟨entry, sub mem, allows⟩

/-- Where a login leads to. -/
def Session.Lands (s : Session) : Prop := ∀ uri ∈ s.redirectOnLogin, Slashed uri

/-- What can be said of a cookie that was given out. -/
def Cookie.Known (old : List SessionRecovery) (log : List (Entry R)) : Cookie → Prop
  | .session s => s.Warrant old log ∧ s.Lands
  | .recovery earlier => earlier ∈ old

lemma Session.Lands.of_none (none : s.redirectOnLogin = none) : s.Lands := by
  intro uri isUri
  rw [none] at isUri
  cases isUri

lemma Cookie.Known.mono {cookie : Cookie} (known : cookie.Known old log) (sub : log ⊆ log') :
    cookie.Known old log' := by
  cases cookie with
  | session s => exact ⟨known.1.mono sub, known.2⟩
  | recovery earlier => exact known

/-- The session of a request, by its token or by what its cookie goes back to. -/
def Session.Found (old : List SessionRecovery) (log : List (Entry R)) (byToken : Bool) (s : Session) : Prop :=
  if byToken then s.isAdmin = true ∧ s.isLoggedIn = true ∧ s.roomCreationAllowed = true ∧ s.userId = none
  else s.Warrant old log

lemma fromRequestSync'_found (base64 : List UInt8 → Option (List UInt8)) (setup : Setup) {request : Request}
    (known : ∀ cookie ∈ request.cookie, cookie.Known old log) (newV4 : ℕ) :
    let found := fromRequestSync' base64 setup request newV4
    found.1.Found old log (request.hasToken base64 setup) ∧ found.1.Lands ∧
      ∀ s ∈ found.2, s.Warrant old log ∧ s.Lands := by
  unfold fromRequestSync'
  split
  case isTrue byToken =>
    refine ⟨?_, .of_none rfl, fun s mem => absurd mem List.not_mem_nil⟩
    rw [byToken]
    exact ⟨rfl, rfl, rfl, rfl⟩
  case isFalse noToken =>
    rw [Bool.not_eq_true] at noToken
    rw [noToken]
    cases cookie : request.cookie with
    | none =>
      have visitor : Session.Warrant old log ⟨false, false, false, none, none, newV4⟩ := .visitor rfl rfl rfl rfl
      refine ⟨visitor, .of_none rfl, fun s mem => ?_⟩
      rw [List.mem_singleton.mp mem]
      exact ⟨visitor, .of_none rfl⟩
    | some cookie' =>
      have known := known cookie' cookie
      cases cookie' with
      | session s => exact ⟨known.1, known.2, fun s mem => absurd mem List.not_mem_nil⟩
      | recovery recovery =>
        have earlier : (recovery.toSession newV4).Warrant old log := .earlier recovery known rfl rfl rfl rfl
        refine ⟨earlier, .of_none rfl, fun s mem => ?_⟩
        rw [List.mem_singleton.mp mem]
        exact ⟨earlier, .of_none rfl⟩

lemma fromRequestSync_found (base64 : List UInt8 → Option (List UInt8)) (setup : Setup) {request : Request}
    (known : ∀ cookie ∈ request.cookie, cookie.Known old log) (newV4 : ℕ × ℕ) :
    let found := fromRequestSync base64 setup request newV4
    found.1.Found old log (request.hasToken base64 setup) ∧ found.1.Lands ∧
      (∀ s ∈ found.2, s.Warrant old log ∧ s.Lands) ∧ ∀ userId ∈ found.1.userId, userId ∉ setup.bannedUsers := by
  obtain ⟨isFound, lands, saved⟩ := fromRequestSync'_found base64 setup known newV4.1
  unfold fromRequestSync
  generalize fromRequestSync' base64 setup request newV4.1 = found at isFound lands saved
  obtain ⟨s, savedFirst⟩ := found
  simp only at isFound lands saved ⊢
  cases isUser : s.userId with
  | none => exact ⟨isFound, lands, saved, by simp [isUser]⟩
  | some userId =>
    simp only
    split
    case isTrue banned =>
      have visitor : Session.Warrant old log ⟨false, false, false, none, some "/", newV4.2⟩ := .visitor rfl rfl rfl rfl
      have lands : Session.Lands ⟨false, false, false, none, some "/", newV4.2⟩ := by
        intro uri isUri
        cases isUri
        unfold Slashed
        decide
      have noToken : request.hasToken base64 setup = false := by
        by_contra token
        rw [Bool.not_eq_false] at token
        rw [token] at isFound
        rw [isFound.2.2.2] at isUser
        cases isUser
      refine ⟨?_, lands, fun s mem => ?_, fun userId isUser => absurd isUser (Option.not_mem_none userId)⟩
      · rw [noToken]
        exact visitor
      · rcases List.mem_append.mp mem with mem | mem
        · exact saved s mem
        · rw [List.mem_singleton.mp mem]
          exact ⟨visitor, lands⟩
    case isFalse fine =>
      refine ⟨isFound, lands, saved, fun other isOther => ?_⟩
      rw [isUser] at isOther
      cases isOther
      simpa [isBanned] using fine

/-- A session that was found is saved. -/
lemma Session.Found.warrant {entry : Entry R} (found : s.Found old log entry.byToken) :
    s.Warrant old (log ++ [entry]) := by
  unfold Session.Found at found
  cases byToken : entry.byToken with
  | true =>
    rw [byToken] at found
    obtain ⟨admin, loggedIn, allowed, noUser⟩ := found
    exact .token entry (List.mem_append_right _ (List.mem_singleton_self _)) byToken admin loggedIn allowed noUser
  | false =>
    rw [byToken] at found
    exact Warrant.mono found (List.subset_append_left _ _)

lemma loginDiscord_known {entry : Entry R} (found : s.Found old log entry.byToken) (lands : s.Lands)
    (redirect : Option String) :
    (loginDiscord s redirect).Warrant old (log ++ [entry]) ∧ (loginDiscord s redirect).Lands := by
  unfold loginDiscord
  cases redirect with
  | none => exact ⟨found.warrant, lands⟩
  | some uri =>
    simp only
    split
    case isTrue slashed =>
      refine ⟨found.warrant.redirected _, fun uri' isUri => ?_⟩
      cases isUri
      exact List.isPrefixOf_iff_prefix.mp slashed
    case isFalse => exact ⟨found.warrant, lands⟩

/-- What an answer says of where to go. -/
def Response.Fine (response : Response) : Prop := response ≠ .crashed ∧ ∀ uri, response = .redirect uri → Slashed uri

lemma Response.fine_redirect {uri : String} (slashed : Slashed uri) : (Response.redirect uri).Fine := by
  constructor
  · intro crashed
    cases crashed
  · intro uri' isUri
    cases isUri
    exact slashed

lemma Response.fine_of_stays {response : Response} (stays : response ∈ [.page, .discord, .done]) : response.Fine := by
  constructor
  · rintro rfl
    simp at stays
  · rintro uri rfl
    simp at stays

variable {setup : Setup} {entry : Entry R}

/-- The tables after a room or a template was written by one who may. -/
lemma Tables.Sourced.putRoom [DecidableEq R] (sourced : db.Sourced log) {room : R} {author : Option ℤ}
    (creates : ∀ a ∈ author, entry.CreatesRoom room a) :
    Tables.Sourced (log ++ [entry]) { db with rooms := Function.update db.rooms room author } := by
  have before := sourced.mono (List.subset_append_left log [entry])
  refine ⟨fun other a there => ?_, before.templates, before.global, before.users⟩
  simp only [Function.update_apply] at there
  split at there
  case isTrue same =>
    rw [same]
    exact ⟨entry, List.mem_append_right _ (List.mem_singleton_self _), creates a there⟩
  case isFalse => exact before.rooms other a there

lemma Tables.Sourced.putTemplate [DecidableEq R] (sourced : db.Sourced log) {tpl : R} {row : Option Template}
    (creates : ∀ new ∈ row, entry.CreatesTemplate tpl new.authorId ∨
      ∃ before, db.templates tpl = some before ∧ before.authorId = new.authorId)
    (makes : ∀ new ∈ row, new.global = true → entry.MakesGlobal tpl) :
    Tables.Sourced (log ++ [entry]) { db with templates := Function.update db.templates tpl row } := by
  have before := sourced.mono (List.subset_append_left log [entry])
  refine ⟨before.rooms, fun other new there => ?_, fun other new there global => ?_, before.users⟩
  · simp only [Function.update_apply] at there
    split at there
    case isTrue same =>
      rw [same]
      rcases creates new there with creates | ⟨row', there', sameAuthor⟩
      · exact ⟨entry, List.mem_append_right _ (List.mem_singleton_self _), creates⟩
      · rw [← sameAuthor]
        exact before.templates tpl row' there'
    case isFalse => exact before.templates other new there
  · simp only [Function.update_apply] at there
    split at there
    case isTrue same =>
      rw [same]
      exact ⟨entry, List.mem_append_right _ (List.mem_singleton_self _), makes new there global⟩
    case isFalse => exact before.global other new there global

lemma Tables.Sourced.putUser (sourced : db.Sourced log) {userId : ℤ} {user : DiscordUser}
    (allows : user.roomCreationAllowed = true → entry.Allows userId ∨ db.getRoomCreationAllowed userId = true) :
    Tables.Sourced (log ++ [entry]) { db with users := Function.update db.users userId (some user) } := by
  have before := sourced.mono (List.subset_append_left log [entry])
  refine ⟨before.rooms, before.templates, before.global, fun other allowed => ?_⟩
  unfold Tables.getRoomCreationAllowed at allowed
  simp only [Function.update_apply] at allowed
  split at allowed
  case isTrue same =>
    rw [same]
    rcases allows allowed with allows | allowed
    · exact ⟨entry, List.mem_append_right _ (List.mem_singleton_self _), allows⟩
    · exact before.users userId allowed
  case isFalse => exact before.users other allowed

namespace LobbyState

/-- What holds after any number of requests. -/
structure Sound (old : List SessionRecovery) (st : LobbyState R) : Prop where
  cookies : ∀ cookie ∈ st.issued, cookie.Known old st.log
  tables : st.tables.Sourced st.log
  rightful : ∀ i, ∀ entry : Entry R, st.log[i]? = some entry → entry.Rightful old (st.log.take i)

/-- A request that is answered as it may be. -/
lemma Sound.note {st : LobbyState R} {tables : Tables R} {cookies : List Session} (sound : st.Sound old)
    (saved : ∀ s ∈ cookies, s.Warrant old (st.log ++ [entry]) ∧ s.Lands) (sourced : tables.Sourced (st.log ++ [entry]))
    (rightful : entry.Rightful old st.log) :
    Sound old ⟨st.issued ++ cookies.map .session, tables, st.log ++ [entry]⟩ := by
  refine ⟨fun cookie mem => ?_, sourced, fun i entry' there => ?_⟩
  · rcases List.mem_append.mp mem with mem | mem
    · exact (sound.cookies cookie mem).mono (List.subset_append_left _ _)
    · obtain ⟨s, inSaved, rfl⟩ := List.mem_map.mp mem
      exact saved s inSaved
  · simp only at there ⊢
    by_cases before : i < st.log.length
    · rw [List.getElem?_append_left before] at there
      rw [List.take_append_of_le_length (Nat.le_of_lt before)]
      exact sound.rightful i entry' there
    · have last : i = st.log.length := by
        obtain ⟨within, _⟩ := List.getElem?_eq_some_iff.mp there
        rw [List.length_append, List.length_singleton] at within
        omega
      subst last
      rw [List.getElem?_concat_length] at there
      cases there
      rw [List.take_left]
      exact rightful

end LobbyState

variable [DecidableEq R] [ToString R] {parseIntError : String → String} {dbError : String}

/-- What a request that went well did. -/
lemma handle_ok (entry : Entry R) {out : Tables R × List Session × Response} (sourced : entry.before.Sourced log)
    (found : entry.session.Found old log entry.byToken) (lands : entry.session.Lands)
    (ok : handle parseIntError dbError entry.setup entry.session entry.before entry.route = .ok out)
    (done : entry.done = true) :
    May entry.setup entry.before entry.session entry.route ∧ out.1.Sourced (log ++ [entry]) ∧
      (∀ s ∈ out.2.1, s.Warrant old (log ++ [entry]) ∧ s.Lands) ∧ out.2.2.Fine := by
  have root : Slashed "/" := by unfold Slashed; decide
  have templates : Slashed "/room-templates" := by unfold Slashed; decide
  have rooms (room : R) : Slashed ("/room/" ++ toString room) := slashed_append (by unfold Slashed; decide) _
  have nothing (s : Session) (mem : s ∈ ([] : List Session)) : s.Warrant old (log ++ [entry]) ∧ s.Lands :=
    absurd mem List.not_mem_nil
  have unchanged := sourced.mono (List.subset_append_left log [entry])
  cases isRoute : entry.route with
  | page =>
    rw [isRoute] at ok
    cases ok
    exact ⟨trivial, unchanged, nothing, Response.fine_of_stays (by simp)⟩
  | loginDiscord redirect =>
    rw [isRoute] at ok
    cases ok
    refine ⟨trivial, unchanged, fun s mem => ?_, Response.fine_of_stays (by simp)⟩
    rw [List.mem_singleton.mp mem]
    exact loginDiscord_known found lands redirect
  | loginDiscordCallback discordUser =>
    rw [isRoute, handle] at ok
    obtain ⟨out', ran, rfl⟩ := exists_of_map_ok ok
    obtain ⟨id, username, userId, isUser, parsed, isTables, isSession, answer⟩ := loginDiscordCallback_ok ran
    refine ⟨trivial, ?_, fun s mem => ?_, ?_⟩
    · show out'.1.Sourced _
      rw [isTables]
      exact sourced.putUser fun allowed => .inr allowed
    · rw [List.mem_singleton.mp mem]
      show out'.2.1.Warrant _ _ ∧ out'.2.1.Lands
      rw [isSession]
      refine ⟨.login entry id username userId (List.mem_append_right _ (List.mem_singleton_self _)) done ?_ parsed rfl
        rfl rfl rfl, lands⟩
      rw [isRoute, isUser]
    · show out'.2.2.Fine
      rcases answer with answer | answer
      · rw [answer]
        exact Response.fine_redirect root
      · rw [answer]
        apply Response.fine_redirect
        cases goes : entry.session.redirectOnLogin with
        | none => exact root
        | some uri => exact lands uri goes
  | createRoomSubmit room fromTemplate form rest =>
    rw [isRoute, handle] at ok
    obtain ⟨out', ran, rfl⟩ := exists_of_map_ok ok
    obtain ⟨may, userId, known, rfl⟩ := createRoomSubmit_ok ran
    refine ⟨may, sourced.putRoom fun a isA => ?_, nothing, Response.fine_redirect (rooms room)⟩
    cases isA
    exact ⟨done, known, fromTemplate, form, rest, isRoute⟩
  | editRoomSubmit room rest =>
    rw [isRoute, handle] at ok
    obtain ⟨out', ran, rfl⟩ := exists_of_map_ok ok
    obtain ⟨may, rfl⟩ := editRoomSubmit_ok ran
    exact ⟨may, unchanged, nothing, Response.fine_redirect (rooms room)⟩
  | deleteRoom room =>
    rw [isRoute, handle] at ok
    obtain ⟨out', ran, rfl⟩ := exists_of_map_ok ok
    obtain ⟨may, rfl⟩ := deleteRoom_ok ran
    exact ⟨may, sourced.putRoom fun a isA => absurd isA (Option.not_mem_none a), nothing, Response.fine_redirect root⟩
  | createTplSubmit tpl tplGlobal rest =>
    rw [isRoute, handle] at ok
    obtain ⟨out', ran, rfl⟩ := exists_of_map_ok ok
    obtain ⟨userId, known, rfl⟩ := createTplSubmit_ok ran
    refine ⟨by rw [May, known]; rfl, sourced.putTemplate (fun new isNew => .inl ?_) fun new isNew global => ?_, nothing,
      Response.fine_redirect templates⟩
    · cases isNew
      exact ⟨done, known, tplGlobal, rest, isRoute⟩
    · cases isNew
      obtain ⟨isGlobal, admin⟩ := Bool.and_eq_true_iff.mp global
      rw [isGlobal] at isRoute
      exact ⟨done, admin, rest, .inl isRoute⟩
  | editTplSubmit tpl tplGlobal rest =>
    rw [isRoute, handle] at ok
    obtain ⟨out', ran, rfl⟩ := exists_of_map_ok ok
    obtain ⟨row, there, mine, rfl⟩ := editTplSubmit_ok ran
    refine ⟨⟨row, there, mine⟩, sourced.putTemplate (fun new isNew => .inr ?_) fun new isNew global => ?_, nothing,
      Response.fine_redirect templates⟩
    · cases isNew
      exact ⟨row, there, rfl⟩
    · cases isNew
      obtain ⟨isGlobal, admin⟩ := Bool.and_eq_true_iff.mp global
      rw [isGlobal] at isRoute
      exact ⟨done, admin, rest, .inr isRoute⟩
  | deleteTemplate tpl =>
    rw [isRoute, handle] at ok
    obtain ⟨out', ran, rfl⟩ := exists_of_map_ok ok
    obtain ⟨may, rfl⟩ : May entry.setup _ _ (.deleteTemplate tpl) ∧ _ := deleteTemplate_ok ran
    exact ⟨may, sourced.putTemplate (fun new isNew => absurd isNew (Option.not_mem_none new))
      fun new isNew => absurd isNew (Option.not_mem_none new), nothing, Response.fine_redirect templates⟩
  | setRoomCreationAllowed id allowed =>
    rw [isRoute, handle] at ok
    obtain ⟨out', ran, rfl⟩ := exists_of_map_ok ok
    obtain ⟨admin, userId, user, parsed, rfl⟩ := setRoomCreationAllowed_ok ran
    refine ⟨admin, sourced.putUser fun allows => .inl ⟨done, admin, id, parsed, ?_⟩, nothing,
      Response.fine_of_stays (by simp)⟩
    have isAllowed : allowed = true := allows
    rw [isRoute, isAllowed]

/-- What a request that failed is answered with. -/
lemma respond_fine {restricted : Prop} {e : Failure} (fails : Fails restricted s e) (again : Session) (path : String) :
    (∀ uri, e.respond again path = .redirect uri → Slashed uri) ∧
      (e.respond again path = .crashed → restricted ∨ s.isAdmin = true ∧ s.userId = none) := by
  cases e with
  | unauthorized =>
    refine ⟨fun uri isUri => ?_, fun crashed => (by cases crashed)⟩
    cases isUri
    split
    · unfold Slashed
      decide
    · exact slashed_append (by unfold Slashed; decide) _
  | refused message back =>
    cases back with
    | none => exact ⟨fun uri isUri => (by cases isUri), fun _ => .inl fails⟩
    | some back =>
      refine ⟨fun uri isUri => ?_, fun crashed => (by cases crashed)⟩
      cases isUri
      exact fails
  | status code message => exact ⟨fun uri isUri => (by cases isUri), fun crashed => (by cases crashed)⟩
  | panicked => exact ⟨fun uri isUri => (by cases isUri), fun _ => .inr fails⟩

/-- A restricted creation crashes. -/
lemma handle_restricted (parseIntError : String → String) (dbError : String) (restricted : entry.Restricted) :
    ∃ message, handle parseIntError dbError entry.setup entry.session entry.before entry.route =
      .error (.refused message none) := by
  obtain ⟨⟨room, fromTemplate, form, rest, isRoute⟩, only, noAdmin, userId, known, notAllowed⟩ := restricted
  refine ⟨"Room creation is restricted to admins only", ?_⟩
  have loggedIn : entry.session.loggedIn = .ok () := loggedIn_ok.mpr (.inr (by rw [known]; rfl))
  have may : mayCreateRoom entry.setup entry.session entry.before =
      .error (.refused "Room creation is restricted to admins only" none) := by
    unfold mayCreateRoom
    rw [if_pos only, if_neg (by simp [noAdmin]), Session.getUserId, known]
    show ensure (entry.before.getRoomCreationAllowed userId) _ = _
    rw [notAllowed]
    rfl
  rw [isRoute, handle, createRoomSubmit, loggedIn]
  show Except.map _ (mayCreateRoom entry.setup entry.session entry.before >>= _) = _
  rw [may]
  rfl

namespace LobbyState

variable {base64 : List UInt8 → Option (List UInt8)} {st : LobbyState R}

lemma Sound.step (sound : st.Sound old) (call : Call R) : (st.step base64 parseIntError dbError call).Sound old := by
  have known : ∀ cookie ∈ (st.request call).cookie, cookie.Known old st.log := by
    intro cookie isCookie
    obtain ⟨i, _, there⟩ := Option.bind_eq_some_iff.mp isCookie
    exact sound.cookies cookie (List.mem_of_getElem? there)
  obtain ⟨found, lands, saved, notBanned⟩ := fromRequestSync_found base64 call.setup known (call.newV4 0, call.newV4 1)
  obtain ⟨_, _, savedAgain, _⟩ := fromRequestSync_found base64 call.setup known (call.newV4 2, call.newV4 3)
  unfold LobbyState.step
  simp only
  generalize fromRequestSync base64 call.setup (st.request call) (call.newV4 0, call.newV4 1) = first at *
  generalize fromRequestSync base64 call.setup (st.request call) (call.newV4 2, call.newV4 3) = again at *
  have session :
      if (st.request call).hasToken base64 call.setup then first.1.isAdmin = true ∧ first.1.userId = none
      else first.1.Warrant old st.log := by
    unfold Session.Found at found
    split at found
    case isTrue token => rw [if_pos token]; exact ⟨found.1, found.2.2.2⟩
    case isFalse noToken => rw [if_neg noToken]; exact found
  cases ran : handle parseIntError dbError call.setup first.1 st.tables call.route with
  | ok out =>
    obtain ⟨tables, cookies, response⟩ := out
    simp only
    obtain ⟨may, sourced, savedToo, fine⟩ := handle_ok
      ⟨call.setup, (st.request call).hasToken base64 call.setup, first.1, call.route, st.tables, true, response⟩
      sound.tables found lands ran rfl
    apply sound.note ?_ sourced
    · refine ⟨session, notBanned, sound.tables, fun _ => may, fine.2, fun restricted => ?_,
        fun crashed => absurd crashed fine.1⟩
      obtain ⟨message, refused⟩ := handle_restricted parseIntError dbError restricted
      rw [ran] at refused
      cases refused
    · intro s mem
      rcases List.mem_append.mp mem with mem | mem
      · exact ⟨(saved s mem).1.mono (List.subset_append_left _ _), (saved s mem).2⟩
      · exact savedToo s mem
  | error e =>
    simp only
    have fails := handle_tame parseIntError dbError call.route e ran
    obtain ⟨slashed, crashed⟩ := respond_fine fails again.1 call.path
    apply sound.note ?_ (sound.tables.mono (List.subset_append_left _ _))
    · refine ⟨session, notBanned, sound.tables, fun done => (by cases done), slashed, fun restricted => ?_, crashed⟩
      obtain ⟨message, refused⟩ := handle_restricted parseIntError dbError restricted
      have same := ran.symm.trans refused
      cases same
      rfl
    · intro s mem
      rcases List.mem_append.mp mem with mem | mem
      · exact ⟨(saved s mem).1.mono (List.subset_append_left _ _), (saved s mem).2⟩
      · split at mem
        · exact ⟨(savedAgain s mem).1.mono (List.subset_append_left _ _), (savedAgain s mem).2⟩
        · cases mem

end LobbyState

end

end ArchipelagoXL.Lobby.Auth
