import ArchipelagoXL.Lib.Interleave
import ArchipelagoXL.Apx.Rooms

/-!
# Alternative names

A player can connect to a room under an alternative name (`handleAltConnectName` in `apx/api.go`). The names
are kept in memory, with the room, and in the store, under its lobby room id. A request checks the name
it is given, then sets it in memory, then inserts a row; each of these is a step, and requests overlap. A
start and the start of a process load the rows into a new room, an upload does not.

The checks are made against the memory of one room, and nothing is checked when a row is inserted or
loaded. What is written there must fit what is there already (`Fits`): a step keeps real names clear of
alternative ones exactly if it does (`real_names_stay_clear`).

A room is a new object each time it is started. Requests of a process that has ended do not go on.
-/

namespace ArchipelagoXL.Apx

open Interleave

/-- What a running room has of names: its lobby room id, its players by name, and its alternative names
(Go `ConnectNames`). -/
structure NamedRoom where
  lobbyRoomId : String
  auth : String → Option (ℤ × ℤ)
  altConnectNames : String → Option String

/-- Go `resolveAltName`, and what `handleConnect` does to the name of a message. -/
def NamedRoom.resolveAltName (room : NamedRoom) (name : String) : String :=
  (room.altConnectNames name).getD name

/-- The running rooms, all rooms that were made by address, the number of the process, and the store. -/
structure NameTable where
  running : String → Option ℕ
  rooms : ℕ → NamedRoom
  made : ℕ
  process : ℕ
  store : RoomStore

/-- The rows of a room. -/
def NameTable.rows (w : NameTable) (roomId : String) : List (String × String) :=
  w.store.altConnectNames roomId

/-- A new room, which is running and has no alternative names; its row is saved. -/
def NameTable.startNewHostedRoom (players : String → RoomPlayers) (w : NameTable)
    (apRoomId lobbyRoomId : String) (perSlotPasswords deathlinkDisabled reducedAccess : Bool) :
    NameTable :=
  { w with
    running := Function.update w.running lobbyRoomId (some w.made)
    rooms := Function.update w.rooms w.made ⟨lobbyRoomId, (players apRoomId).auth, fun _ => none⟩
    made := w.made + 1
    store := w.store.save lobbyRoomId apRoomId perSlotPasswords deathlinkDisabled reducedAccess }

/-- Go `Remove`. -/
def NameTable.remove (w : NameTable) (roomId : String) : NameTable :=
  { w with running := Function.update w.running roomId none }

/-- Go `SetAltName` and `RemoveAltName` of a room. -/
def NameTable.setAltName (w : NameTable) (room : ℕ) (connectName : String) (realName : Option String) :
    NameTable :=
  let names := Function.update (w.rooms room).altConnectNames connectName realName
  { w with rooms := Function.update w.rooms room { w.rooms room with altConnectNames := names } }

/-- Go `LoadAltConnectNames`: of two rows of a name the later one counts. -/
def loadAltConnectNames (rows : List (String × String)) : List (String × String) :=
  rows.foldl (fun names p => (names.filter fun q => decide (q.1 ≠ p.1)) ++ [p]) []

/-- What is left of the start of a process: its records. -/
abbrev Records := List (String × RoomRecord)

/-- The steps of a start, of the start of a process, and of a request for an alternative name. A start that is
part of the start of a process knows what is left of it. -/
inductive AltStep where
  | boot (rest : Records)
  | load (room : ℕ) (rest : Option Records)
  | restore (room : ℕ) (todo : List (String × String)) (rest : Option Records)
  | check (room : ℕ) (altName slotName : String)
  | set (room : ℕ) (altName slotName : String)
  | insert (room : ℕ) (altName slotName : String)
  | remove (room : ℕ) (altName : String)
  | delete (room : ℕ) (altName : String)

/-- Where a thread is: between calls, at a step in a process, or back with a status and perhaps an
error. -/
inductive AltPc where
  | idle
  | busy (process : ℕ) (at_ : AltStep)
  | answered (status : ℕ) (error : Option String)

/-- The calls, the order in which loaded names are walked, and failures of the store or the server. The
start of a process comes with the records of the rooms that come up. -/
inductive AltInput where
  | upload (req : UploadRoomRequest) (apRoomId : String)
  | start (roomId : String) (req : RoomStartRequest) (up : Bool)
  | stop (roomId : String)
  | deleteRoom (roomId : String)
  | restart (records : Records)
  | post (roomId altName : String) (slotName : Option String)
  | deleteName (roomId altName : String)
  | walk (names : List (String × String))
  | go
  | fail

/-- A call that is refused. -/
def altRefused (status : ℕ) (error : String) : AltPc := .answered status (some error)

/-- What follows when the names of a room are restored. -/
def afterRestore (process : ℕ) : Option Records → AltPc
  | none => .answered 200 none
  | some rest => .busy process (.boot rest)

/-- The checks of a request for a new name. -/
def NamedRoom.checkAltName (room : NamedRoom) (altName slotName : String) : Except (ℕ × String) Unit :=
  if slotName = "" then .error (400, "slot_name is required")
  else if room.auth slotName = none then .error (404, "slot not found")
  else if room.auth altName ≠ none then .error (409, "alt name is already taken by real slot name")
  else
    match room.altConnectNames altName with
    | some existing =>
      if existing = slotName then .error (409, "alt name already mapped to this slot")
      else .error (409, "alt name is already taken by another slot")
    | none => .ok ()

/-- A step within a process. -/
def altStep (players : String → RoomPlayers) (w : NameTable) (process : ℕ) :
    AltStep → AltInput → Option (NameTable × AltPc)
  | .boot [], .go => some (w, .idle)
  | .boot (record :: rest), .go =>
    match w.running record.1 with
    | some _ => some (w, .busy process (.boot rest))
    | none =>
      let w' := w.startNewHostedRoom players record.2.apRoomId record.1 record.2.perSlotPasswords
        record.2.deathlinkDisabled record.2.reducedAccess
      some (w', .busy process (.load w.made (some rest)))
  | .boot (_ :: rest), .fail => some (w, .busy process (.boot rest))
  | .load room rest, .walk names =>
    if names.Perm (loadAltConnectNames (w.rows (w.rooms room).lobbyRoomId)) then
      some (w, .busy process (.restore room names rest))
    else none
  | .load _ rest, .fail => some (w, afterRestore process rest)
  | .restore _ [] rest, .go => some (w, afterRestore process rest)
  | .restore room ((altName, slotName) :: todo) rest, .go =>
    some (w.setAltName room altName (some slotName), .busy process (.restore room todo rest))
  | .check room altName slotName, .go =>
    match (w.rooms room).checkAltName altName slotName with
    | .error e => some (w, altRefused e.1 e.2)
    | .ok _ => some (w, .busy process (.set room altName slotName))
  | .set room altName slotName, .go =>
    some (w.setAltName room altName (some slotName), .busy process (.insert room altName slotName))
  | .insert room altName slotName, .go =>
    let store := w.store.addAltConnectName (w.rooms room).lobbyRoomId altName slotName
    some ({ w with store := store }, .answered 200 none)
  | .insert _ _ _, .fail => some (w, .answered 200 none)
  | .remove room altName, .go =>
    some (w.setAltName room altName none, .busy process (.delete room altName))
  | .delete room altName, .go =>
    let store := w.store.deleteAltConnectName (w.rooms room).lobbyRoomId altName
    some ({ w with store := store }, .answered 200 none)
  | .delete _ _, .fail => some (w, .answered 200 none)
  | _, _ => none

/-- One step of a thread; `players` is what the Archipelago server knows of its rooms. -/
def altMachine (players : String → RoomPlayers) : Machine NameTable AltPc AltInput := fun _ w pc x =>
  match pc, x with
  | .idle, .upload req apRoomId =>
    match w.running (req.roomId apRoomId) with
    | some _ => some (w, altRefused 500 ("failed to start room: room already exists: " ++ req.roomId apRoomId))
    | none =>
      let w' := w.startNewHostedRoom players apRoomId (req.roomId apRoomId) req.perSlotPasswords
        req.deathlinkDisabled req.reducedAccess
      some (w', .answered 201 none)
  | .idle, .start roomId req up =>
    match w.running roomId, w.store.rooms roomId with
    | some _, _ => some (w, altRefused 409 "room already running")
    | none, none => some (w, altRefused 404 "room not found")
    | none, some record =>
      let w' := { w with store := (w.store.dropStale roomId record req).enable roomId record }
      if up then
        let w'' := w'.startNewHostedRoom players record.apRoomId roomId
          (req.perSlotPasswords.getD record.perSlotPasswords)
          (req.deathlinkDisabled.getD record.deathlinkDisabled)
          (req.reducedAccess.getD record.reducedAccess)
        some (w'', .busy w.process (.load w.made none))
      else some (w', altRefused 504 "AP room did not come online in time")
  | .idle, .stop roomId =>
    match w.running roomId with
    | none => some (w, altRefused 404 "room not running")
    | some _ => some ({ w with store := w.store.disable roomId }.remove roomId, .answered 200 none)
  | .idle, .deleteRoom roomId =>
    match w.store.rooms roomId with
    | none => some (w, altRefused 404 "room not found")
    | some _ => some ({ w with store := w.store.deleteRoom roomId }.remove roomId, .answered 200 none)
  | .idle, .restart records =>
    if records.all fun r => w.store.rooms r.1 = some r.2 ∧ r.2.disabled = false then
      some ({ w with running := fun _ => none, process := w.process + 1 },
        .busy (w.process + 1) (.boot records))
    else none
  | .idle, .post roomId altName slotName =>
    match w.running roomId, slotName with
    | none, _ => some (w, altRefused 404 "room not found")
    | some _, none => some (w, altRefused 400 "invalid request body")
    | some room, some slotName => some (w, .busy w.process (.check room altName slotName))
  | .idle, .deleteName roomId altName =>
    match w.running roomId with
    | none => some (w, altRefused 404 "room not found")
    | some room => some (w, .busy w.process (.remove room altName))
  | .busy process at_, x => if process = w.process then altStep players w process at_ x else none
  | _, _ => none

/-- A process with an empty store. -/
def altInit : Conf NameTable AltPc where
  shared :=
    { running := fun _ => none
      rooms := fun _ => ⟨"", fun _ => none, fun _ => none⟩
      made := 0
      process := 0
      store :=
        ⟨fun _ => none, fun _ => [], fun _ => [], fun _ => [], fun _ => [], fun _ _ => none⟩ }
  pc := fun _ => .idle

/-! ## Real names and alternative ones -/

/-- In every running room a real name means itself and an alternative one a player of the room, and the
store has at most one slot for each name of a room. -/
structure NameTable.Clear (w : NameTable) : Prop where
  real : ∀ roomId room, w.running roomId = some room →
    ∀ n, (w.rooms room).auth n ≠ none → (w.rooms room).resolveAltName n = n
  alternative : ∀ roomId room, w.running roomId = some room →
    ∀ a n, (w.rooms room).altConnectNames a = some n → (w.rooms room).auth n ≠ none
  stored : ∀ roomId a n n', (a, n) ∈ w.rows roomId → (a, n') ∈ w.rows roomId → n = n'

/-- A row that is inserted is the only one of its name, and a name that is loaded fits the players of the
room, if that is running. -/
def NameTable.Fits (w : NameTable) (pc : AltPc) (x : AltInput) : Prop :=
  match pc, x with
  | .busy _ (.insert room altName slotName), .go =>
    ∀ n, (altName, n) ∈ w.rows (w.rooms room).lobbyRoomId → n = slotName
  | .busy _ (.restore room ((altName, slotName) :: _) _), .go =>
    w.running (w.rooms room).lobbyRoomId = some room →
      ((w.rooms room).auth altName ≠ none → altName = slotName) ∧ (w.rooms room).auth slotName ≠ none
  | _, _ => True

/-! ## What a step can do -/

/-- Running rooms were made, each under its own lobby room id. -/
def NameTable.Tidy (w : NameTable) : Prop :=
  ∀ roomId room, w.running roomId = some room → room < w.made ∧ (w.rooms room).lobbyRoomId = roomId

/-- The room of a step was made, and a name that is about to be set was checked. -/
def AltPc.Ok (w : NameTable) : AltPc → Prop
  | .busy _ (.load room _) => room < w.made
  | .busy _ (.restore room _ _) => room < w.made
  | .busy _ (.check room _ _) => room < w.made
  | .busy _ (.set room altName slotName) =>
    room < w.made ∧ (w.rooms room).auth slotName ≠ none ∧ (w.rooms room).auth altName = none
  | .busy _ (.insert room _ _) => room < w.made
  | .busy _ (.remove room _) => room < w.made
  | .busy _ (.delete room _) => room < w.made
  | _ => True

/-- What a step can do: start a room, take away rooms or rows, set or remove a name, or insert a row. -/
inductive NameStep (players : String → RoomPlayers) (w : NameTable) (pc : AltPc) (x : AltInput) :
    NameTable → AltPc → Prop where
  | start {store apRoomId lobbyRoomId perSlotPasswords deathlinkDisabled reducedAccess pc'}
    (fits : w.Fits pc x) (rows : store.altConnectNames = w.store.altConnectNames)
    (ok : ∀ w' : NameTable, w'.made = w.made + 1 → pc'.Ok w') :
    NameStep players w pc x
      (NameTable.startNewHostedRoom players { w with store := store } apRoomId lobbyRoomId
        perSlotPasswords deathlinkDisabled reducedAccess) pc'
  | fewer {w' pc'} (fits : w.Fits pc x)
    (running : ∀ roomId room, w'.running roomId = some room → w.running roomId = some room)
    (rooms : w'.rooms = w.rooms) (made : w'.made = w.made)
    (rows : ∀ roomId p, p ∈ w'.rows roomId → p ∈ w.rows roomId) (ok : pc'.Ok w') :
    NameStep players w pc x w' pc'
  | set {process room altName slotName} (at_ : pc = .busy process (.set room altName slotName)) :
    NameStep players w pc x (w.setAltName room altName (some slotName))
      (.busy process (.insert room altName slotName))
  | remove {process room altName} (at_ : pc = .busy process (.remove room altName)) :
    NameStep players w pc x (w.setAltName room altName none) (.busy process (.delete room altName))
  | restore {process room altName slotName todo rest}
    (at_ : pc = .busy process (.restore room ((altName, slotName) :: todo) rest)) (go : x = .go) :
    NameStep players w pc x (w.setAltName room altName (some slotName))
      (.busy process (.restore room todo rest))
  | insert {process room altName slotName} (at_ : pc = .busy process (.insert room altName slotName))
    (go : x = .go) :
    NameStep players w pc x
      { w with store := w.store.addAltConnectName (w.rooms room).lobbyRoomId altName slotName }
      (.answered 200 none)

/-- Names that pass the checks. -/
lemma NamedRoom.checkAltName_ok {room : NamedRoom} {altName slotName : String}
    (ok : room.checkAltName altName slotName = .ok ()) :
    room.auth slotName ≠ none ∧ room.auth altName = none := by
  unfold NamedRoom.checkAltName at ok
  split at ok
  · cases ok
  · split at ok
    · cases ok
    · rename_i known
      split at ok
      · cases ok
      · rename_i free
        exact ⟨known, not_not.mp free⟩

lemma ok_afterRestore (w : NameTable) (process : ℕ) (rest : Option Records) :
    (afterRestore process rest).Ok w := by
  cases rest <;> trivial

lemma altConnectNames_dropStale (db : RoomStore) (id : String) (record : RoomRecord)
    (req : RoomStartRequest) :
    ((db.dropStale id record req).enable id record).altConnectNames = db.altConnectNames := by
  unfold RoomStore.enable RoomStore.dropStale
  split <;> split <;> split <;> rfl

lemma rows_delete {db : RoomStore} {id roomId altName : String} {p : String × String}
    (mem : p ∈ (db.deleteAltConnectName id altName).altConnectNames roomId) :
    p ∈ db.altConnectNames roomId := by
  by_cases e : roomId = id
  · subst e
    have mem : p ∈ Function.update db.altConnectNames roomId _ roomId := mem
    rw [Function.update_self] at mem
    exact (List.mem_filter.mp mem).1
  · have mem : p ∈ Function.update db.altConnectNames id _ roomId := mem
    rwa [Function.update_of_ne e] at mem

lemma rows_deleteRoom {db : RoomStore} {id roomId : String} {p : String × String}
    (mem : p ∈ (db.deleteRoom id).altConnectNames roomId) : p ∈ db.altConnectNames roomId := by
  have mem : p ∈ Function.update db.altConnectNames id [] roomId := mem
  by_cases e : roomId = id
  · rw [e, Function.update_self] at mem
    cases mem
  · rwa [Function.update_of_ne e] at mem

lemma NameTable.running_remove {w : NameTable} {id roomId : String} {room : ℕ}
    (e : (w.remove id).running roomId = some room) : w.running roomId = some room := by
  have e : Function.update w.running id none roomId = some room := e
  by_cases same : roomId = id
  · rw [same, Function.update_self] at e
    cases e
  · rwa [Function.update_of_ne same] at e

/-- The steps within a process. -/
lemma altStep_cases {players : String → RoomPlayers} {w w' : NameTable} {process : ℕ} {at_ : AltStep}
    {pc' : AltPc} {x : AltInput} (h : altStep players w process at_ x = some (w', pc'))
    (ok : (AltPc.busy process at_).Ok w) : NameStep players w (.busy process at_) x w' pc' := by
  have same : ∀ {pc' : AltPc}, w.Fits (.busy process at_) x → pc'.Ok w →
      NameStep players w (.busy process at_) x w pc' :=
    fun fits ok => .fewer fits (fun _ _ e => e) rfl rfl (fun _ _ mem => mem) ok
  have next : ∀ w' : NameTable, w'.made = w.made + 1 → w.made < w'.made := fun w' made => (by omega)
  cases at_ with
  | boot rest =>
    cases rest with
    | nil =>
      cases x with
      | go =>
        cases h
        exact same trivial trivial
      | _ => cases h
    | cons record rest =>
      cases x with
      | go =>
        simp only [altStep] at h
        split at h
        · cases h
          exact same trivial trivial
        · cases h
          exact .start trivial rfl next
      | fail =>
        cases h
        exact same trivial trivial
      | _ => cases h
  | load room rest =>
    cases x with
    | walk names =>
      simp only [altStep] at h
      split at h
      · cases h
        exact same trivial ok
      · cases h
    | fail =>
      cases h
      exact same trivial (ok_afterRestore w process rest)
    | _ => cases h
  | restore room todo rest =>
    cases todo with
    | nil =>
      cases x with
      | go =>
        cases h
        exact same trivial (ok_afterRestore w process rest)
      | _ => cases h
    | cons p todo =>
      cases x with
      | go =>
        cases h
        exact .restore rfl rfl
      | _ => cases h
  | check room altName slotName =>
    cases x with
    | go =>
      simp only [altStep] at h
      split at h
      · cases h
        exact same trivial trivial
      · rename_i passed
        cases h
        obtain ⟨known, free⟩ := NamedRoom.checkAltName_ok passed
        exact same trivial ⟨ok, known, free⟩
    | _ => cases h
  | set room altName slotName =>
    cases x with
    | go =>
      cases h
      exact .set rfl
    | _ => cases h
  | insert room altName slotName =>
    cases x with
    | go =>
      cases h
      exact .insert rfl rfl
    | fail =>
      cases h
      exact same trivial trivial
    | _ => cases h
  | remove room altName =>
    cases x with
    | go =>
      cases h
      exact .remove rfl
    | _ => cases h
  | delete room altName =>
    cases x with
    | go =>
      cases h
      exact .fewer trivial (fun _ _ e => e) rfl rfl (fun _ _ mem => rows_delete mem) trivial
    | fail =>
      cases h
      exact same trivial trivial
    | _ => cases h

lemma altMachine_cases {players : String → RoomPlayers} {i : ℕ} {w w' : NameTable} {pc pc' : AltPc}
    {x : AltInput} (h : altMachine players i w pc x = some (w', pc')) (tidy : w.Tidy) (ok : pc.Ok w) :
    NameStep players w pc x w' pc' := by
  have same : ∀ {x : AltInput} {pc' : AltPc}, pc'.Ok w → NameStep players w .idle x w pc' :=
    fun ok => .fewer trivial (fun _ _ e => e) rfl rfl (fun _ _ mem => mem) ok
  have next : ∀ w' : NameTable, w'.made = w.made + 1 → w.made < w'.made := fun w' made => (by omega)
  cases pc with
  | idle =>
    cases x with
    | upload req apRoomId =>
      simp only [altMachine] at h
      split at h
      · cases h
        exact same trivial
      · cases h
        exact .start trivial rfl fun _ _ => trivial
    | start roomId req up =>
      simp only [altMachine] at h
      split at h
      · cases h
        exact same trivial
      · cases h
        exact same trivial
      · rename_i record free found
        have rows := altConnectNames_dropStale w.store roomId record req
        split at h
        · cases h
          exact .start trivial rows next
        · cases h
          refine .fewer trivial (fun _ _ e => e) rfl rfl ?_ trivial
          intro other p mem
          have mem : p ∈ ((w.store.dropStale roomId record req).enable roomId record).altConnectNames other :=
            mem
          rwa [rows] at mem
    | stop roomId =>
      simp only [altMachine] at h
      split at h
      · cases h
        exact same trivial
      · cases h
        exact .fewer trivial (fun _ _ e => NameTable.running_remove e) rfl rfl (fun _ _ mem => mem) trivial
    | deleteRoom roomId =>
      simp only [altMachine] at h
      split at h
      · cases h
        exact same trivial
      · cases h
        exact .fewer trivial (fun _ _ e => NameTable.running_remove e) rfl rfl
          (fun _ _ mem => rows_deleteRoom mem) trivial
    | restart records =>
      simp only [altMachine] at h
      split at h
      · cases h
        exact .fewer trivial (fun _ _ e => (by cases e)) rfl rfl (fun _ _ mem => mem) trivial
      · cases h
    | post roomId altName slotName =>
      simp only [altMachine] at h
      split at h
      · cases h
        exact same trivial
      · cases h
        exact same trivial
      · rename_i room slotName running
        cases h
        exact same (tidy roomId room running).1
    | deleteName roomId altName =>
      simp only [altMachine] at h
      split at h
      · cases h
        exact same trivial
      · rename_i room running
        cases h
        exact same (tidy roomId room running).1
    | _ => cases h
  | busy process at_ =>
    cases x <;>
    · simp only [altMachine] at h
      split at h
      · exact altStep_cases h ok
      · cases h
  | answered status error => cases x <;> cases h

/-! ## What every step keeps -/

/-- Rooms are only made, and keep their ids and their players. -/
structure NameTable.Grows (w w' : NameTable) : Prop where
  made : w.made ≤ w'.made
  room : ∀ room < w.made,
    (w'.rooms room).lobbyRoomId = (w.rooms room).lobbyRoomId ∧ (w'.rooms room).auth = (w.rooms room).auth

lemma AltPc.Ok.mono {w w' : NameTable} {pc : AltPc} (grows : w.Grows w') (ok : pc.Ok w) : pc.Ok w' := by
  have made : ∀ {room : ℕ}, room < w.made → room < w'.made :=
    fun lt => Nat.lt_of_lt_of_le lt grows.made
  cases pc with
  | busy process at_ =>
    cases at_ with
    | boot rest => trivial
    | set room altName slotName =>
      obtain ⟨lt, known, free⟩ := ok
      obtain ⟨-, auth⟩ := grows.room room lt
      refine ⟨made lt, ?_⟩
      rw [auth]
      exact ⟨known, free⟩
    | _ => exact made ok
  | _ => trivial

lemma NameTable.setAltName_room (w : NameTable) (room : ℕ) (connectName : String)
    (realName : Option String) (other : ℕ) :
    ((w.setAltName room connectName realName).rooms other).lobbyRoomId = (w.rooms other).lobbyRoomId ∧
      ((w.setAltName room connectName realName).rooms other).auth = (w.rooms other).auth := by
  by_cases e : other = room
  · subst e
    simp [NameTable.setAltName]
  · simp [NameTable.setAltName, e]

lemma NameTable.names_setAltName_self (w : NameTable) (room : ℕ) (connectName : String)
    (realName : Option String) :
    ((w.setAltName room connectName realName).rooms room).altConnectNames =
      Function.update (w.rooms room).altConnectNames connectName realName := by
  unfold NameTable.setAltName
  simp only [Function.update_self]

lemma NameTable.room_setAltName_of_ne (w : NameTable) {room other : ℕ} (ne : other ≠ room)
    (connectName : String) (realName : Option String) :
    (w.setAltName room connectName realName).rooms other = w.rooms other := by
  unfold NameTable.setAltName
  simp only [Function.update_of_ne ne]

lemma NameTable.grows_setAltName (w : NameTable) (room : ℕ) (connectName : String)
    (realName : Option String) : w.Grows (w.setAltName room connectName realName) :=
  ⟨Nat.le_refl _, fun other _ => w.setAltName_room room connectName realName other⟩

lemma NameTable.Tidy.setAltName {w : NameTable} (h : w.Tidy) (room : ℕ) (connectName : String)
    (realName : Option String) : (w.setAltName room connectName realName).Tidy := by
  intro roomId other running
  obtain ⟨lt, lobby⟩ := h roomId other running
  exact ⟨lt, (w.setAltName_room room connectName realName other).1.trans lobby⟩

section

variable (players : String → RoomPlayers) (w : NameTable) (apRoomId lobbyRoomId : String)
  (perSlotPasswords deathlinkDisabled reducedAccess : Bool)

lemma NameTable.room_start_old {room : ℕ} (lt : room < w.made) :
    (w.startNewHostedRoom players apRoomId lobbyRoomId perSlotPasswords deathlinkDisabled
      reducedAccess).rooms room = w.rooms room :=
  Function.update_of_ne (Nat.ne_of_lt lt) _ _

lemma NameTable.room_start_new :
    (w.startNewHostedRoom players apRoomId lobbyRoomId perSlotPasswords deathlinkDisabled
      reducedAccess).rooms w.made = ⟨lobbyRoomId, (players apRoomId).auth, fun _ => none⟩ :=
  Function.update_self _ _ _

/-- What runs after a start is the new room, or ran before. -/
lemma NameTable.running_start {roomId : String} {room : ℕ}
    (running : (w.startNewHostedRoom players apRoomId lobbyRoomId perSlotPasswords deathlinkDisabled
      reducedAccess).running roomId = some room) :
    roomId = lobbyRoomId ∧ room = w.made ∨ w.running roomId = some room := by
  have running : Function.update w.running lobbyRoomId (some w.made) roomId = some room := running
  by_cases e : roomId = lobbyRoomId
  · rw [e, Function.update_self] at running
    exact .inl ⟨e, (Option.some.inj running).symm⟩
  · rw [Function.update_of_ne e] at running
    exact .inr running

end

lemma NameStep.keeps {players : String → RoomPlayers} {w w' : NameTable} {pc pc' : AltPc} {x : AltInput}
    (step : NameStep players w pc x w' pc') (tidy : w.Tidy) (ok : pc.Ok w) :
    w.Grows w' ∧ w'.Tidy ∧ pc'.Ok w' := by
  cases step with
  | start fits rows okNew =>
    refine ⟨⟨Nat.le_succ _, ?_⟩, ?_, okNew _ rfl⟩
    · intro room lt
      rw [NameTable.room_start_old]
      · exact ⟨rfl, rfl⟩
      · exact lt
    · intro roomId room running
      rcases NameTable.running_start _ _ _ _ _ _ _ running with ⟨rfl, rfl⟩ | running
      · rw [NameTable.room_start_new]
        exact ⟨Nat.lt_succ_self _, rfl⟩
      · obtain ⟨lt, lobby⟩ := tidy roomId room running
        rw [NameTable.room_start_old]
        · exact ⟨Nat.lt_succ_of_lt lt, lobby⟩
        · exact lt
  | fewer fits running rooms made rows okNew =>
    refine ⟨⟨Nat.le_of_eq made.symm, fun room _ => ?_⟩, ?_, okNew⟩
    · rw [rooms]
      exact ⟨rfl, rfl⟩
    · intro roomId room e
      rw [made, rooms]
      exact tidy roomId room (running roomId room e)
  | @set process room altName slotName at_ =>
    subst at_
    exact ⟨w.grows_setAltName _ _ _, tidy.setAltName _ _ _, ok.1⟩
  | @remove process room altName at_ =>
    subst at_
    exact ⟨w.grows_setAltName _ _ _, tidy.setAltName _ _ _, ok⟩
  | @restore process room altName slotName todo rest at_ go =>
    subst at_
    exact ⟨w.grows_setAltName _ _ _, tidy.setAltName _ _ _, ok⟩
  | insert at_ go => exact ⟨⟨Nat.le_refl _, fun _ _ => ⟨rfl, rfl⟩⟩, tidy, trivial⟩

/-- Along every run the running rooms are in order, and every thread knows what it has checked. -/
lemma tidy_of_run {players : String → RoomPlayers} {C : Cond NameTable AltPc AltInput} {tr s}
    (run : Run (altMachine players) C altInit tr s) : s.shared.Tidy ∧ ∀ i, (s.pc i).Ok s.shared := by
  have empty : altInit.shared.Tidy := by
    intro roomId room e
    cases e
  refine run.everyThread (P := fun w pc => pc.Ok w) empty (fun _ => trivial) fun tidy ok st => ?_
  obtain ⟨grows, tidy', ok'⟩ := (altMachine_cases st tidy ok).keeps tidy ok
  exact ⟨tidy', ok', fun _ other => other.mono grows⟩

/-! ## When a step keeps names clear -/

/-- A name that fits the players of a room: it is not the name of another, and leads to one of them. -/
def NamedRoom.FitsName (room : NamedRoom) (altName slotName : String) : Prop :=
  (room.auth altName ≠ none → altName = slotName) ∧ room.auth slotName ≠ none

/-- Names are clear in a room. -/
structure NamedRoom.Clear (room : NamedRoom) : Prop where
  real : ∀ n, room.auth n ≠ none → room.resolveAltName n = n
  alternative : ∀ a n, room.altConnectNames a = some n → room.auth n ≠ none

/-- Names are clear in a room exactly if each of them fits. -/
lemma NamedRoom.clear_iff {room : NamedRoom} :
    room.Clear ↔ ∀ a n, room.altConnectNames a = some n → room.FitsName a n := by
  constructor
  · intro h a n e
    refine ⟨?_, h.alternative a n e⟩
    intro known
    have resolved := h.real a known
    rw [NamedRoom.resolveAltName, e] at resolved
    exact resolved.symm
  · intro h
    refine ⟨?_, fun a n e => (h a n e).2⟩
    intro n known
    rw [NamedRoom.resolveAltName]
    cases e : room.altConnectNames n with
    | none => rfl
    | some m => exact ((h n m e).1 known).symm

lemma NameTable.clear_iff {w : NameTable} :
    w.Clear ↔ (∀ roomId room, w.running roomId = some room → (w.rooms room).Clear) ∧
      ∀ roomId a n n', (a, n) ∈ w.rows roomId → (a, n') ∈ w.rows roomId → n = n' :=
  ⟨fun h => ⟨fun id room e => ⟨h.real id room e, h.alternative id room e⟩, h.stored⟩,
    fun h => ⟨fun id room e => (h.1 id room e).real, fun id room e => (h.1 id room e).alternative, h.2⟩⟩

/-- A name is set in a room: names stay clear exactly if it fits, if the room is running. -/
lemma NameTable.Clear.setAltName_iff {w : NameTable} (h : w.Clear) (tidy : w.Tidy) (room : ℕ)
    (altName slotName : String) :
    (w.setAltName room altName (some slotName)).Clear ↔
      (w.running (w.rooms room).lobbyRoomId = some room → (w.rooms room).FitsName altName slotName) := by
  have auth := (w.setAltName_room room altName (some slotName) room).2
  have names := w.names_setAltName_self room altName (some slotName)
  constructor
  · intro after running
    have own := NamedRoom.clear_iff.mp ((NameTable.clear_iff.mp after).1 _ room running) altName slotName
    rw [names, NamedRoom.FitsName, auth] at own
    exact own (Function.update_self ..)
  · intro fits
    refine NameTable.clear_iff.mpr ⟨?_, h.stored⟩
    intro roomId other running
    have running : w.running roomId = some other := running
    have before := NamedRoom.clear_iff.mp ((NameTable.clear_iff.mp h).1 roomId other running)
    by_cases e : other = room
    · subst e
      rw [NamedRoom.clear_iff, names]
      intro a n given
      rw [NamedRoom.FitsName, auth]
      by_cases same : a = altName
      · subst same
        rw [Function.update_self] at given
        cases given
        exact fits ((tidy roomId other running).2 ▸ running)
      · rw [Function.update_of_ne same] at given
        exact before a n given
    · rw [w.room_setAltName_of_ne e]
      exact NamedRoom.clear_iff.mpr before

/-- A name is removed. -/
lemma NameTable.Clear.removeAltName {w : NameTable} (h : w.Clear) (room : ℕ) (altName : String) :
    (w.setAltName room altName none).Clear := by
  refine NameTable.clear_iff.mpr ⟨?_, h.stored⟩
  intro roomId other running
  have before := NamedRoom.clear_iff.mp ((NameTable.clear_iff.mp h).1 roomId other running)
  by_cases e : other = room
  · subst e
    rw [NamedRoom.clear_iff, w.names_setAltName_self]
    intro a n given
    rw [NamedRoom.FitsName, (w.setAltName_room other altName none other).2]
    by_cases same : a = altName
    · rw [same, Function.update_self] at given
      cases given
    · rw [Function.update_of_ne same] at given
      exact before a n given
  · rw [w.room_setAltName_of_ne e]
    exact NamedRoom.clear_iff.mpr before

lemma NameTable.Clear.start {w w' : NameTable} (h : w.Clear) (tidy : w.Tidy)
    (players : String → RoomPlayers) {store : RoomStore}
    (rows : store.altConnectNames = w.store.altConnectNames) {apRoomId lobbyRoomId : String}
    {perSlotPasswords deathlinkDisabled reducedAccess : Bool}
    (e : w' = NameTable.startNewHostedRoom players { w with store := store } apRoomId lobbyRoomId
      perSlotPasswords deathlinkDisabled reducedAccess) : w'.Clear := by
  subst e
  refine NameTable.clear_iff.mpr ⟨?_, ?_⟩
  · intro roomId room running
    rcases NameTable.running_start _ _ _ _ _ _ _ running with ⟨rfl, rfl⟩ | running
    · rw [NameTable.room_start_new]
      refine NamedRoom.clear_iff.mpr ?_
      intro a n given
      cases given
    · rw [NameTable.room_start_old]
      · exact (NameTable.clear_iff.mp h).1 roomId room running
      · exact (tidy roomId room running).1
  · intro roomId a n n' mem mem'
    have mem : (a, n) ∈ store.altConnectNames roomId := mem
    have mem' : (a, n') ∈ store.altConnectNames roomId := mem'
    rw [rows] at mem mem'
    exact h.stored roomId a n n' mem mem'

/-- A row is inserted: names stay clear exactly if it is the only one of its name. -/
lemma NameTable.Clear.insert_iff {w : NameTable} (h : w.Clear) (id altName slotName : String) :
    NameTable.Clear { w with store := w.store.addAltConnectName id altName slotName } ↔
      ∀ n, (altName, n) ∈ w.rows id → n = slotName := by
  have here : ∀ p, p ∈ (w.store.addAltConnectName id altName slotName).altConnectNames id ↔
      p ∈ w.rows id ∨ p = (altName, slotName) := by
    intro p
    show p ∈ Function.update w.store.altConnectNames id _ id ↔ _
    rw [Function.update_self, insertOrIgnore]
    split
    · rename_i there
      exact ⟨Or.inl, fun hp => hp.elim (fun old => old) fun e => e ▸ there⟩
    · rw [List.mem_append, List.mem_singleton]
      rfl
  have elsewhere : ∀ {roomId p}, roomId ≠ id →
      p ∈ (w.store.addAltConnectName id altName slotName).altConnectNames roomId → p ∈ w.rows roomId := by
    intro roomId p ne mem
    have mem : p ∈ Function.update w.store.altConnectNames id _ roomId := mem
    rwa [Function.update_of_ne ne] at mem
  constructor
  · intro after n mem
    exact after.stored id altName n slotName ((here _).mpr (.inl mem)) ((here _).mpr (.inr rfl))
  · intro only
    refine ⟨h.real, h.alternative, ?_⟩
    intro roomId a n n' mem mem'
    by_cases e : roomId = id
    · subst e
      rcases (here _).mp mem with old | new
      · rcases (here _).mp mem' with old' | new'
        · exact h.stored roomId a n n' old old'
        · cases new'
          exact only n old
      · cases new
        rcases (here _).mp mem' with old' | new'
        · exact (only n' old').symm
        · cases new'
          rfl
    · exact h.stored roomId a n n' (elsewhere e mem) (elsewhere e mem')

/-- A step keeps names clear exactly if it fits. -/
lemma NameStep.clear_iff {players : String → RoomPlayers} {w w' : NameTable} {pc pc' : AltPc}
    {x : AltInput} (step : NameStep players w pc x w' pc') (tidy : w.Tidy) (ok : pc.Ok w)
    (clear : w.Clear) : w'.Clear ↔ w.Fits pc x := by
  cases step with
  | start fits rows _ => exact ⟨fun _ => fits, fun _ => clear.start tidy players rows rfl⟩
  | fewer fits running rooms made rows _ =>
    refine ⟨fun _ => fits, fun _ => ⟨?_, ?_, ?_⟩⟩
    · intro roomId room e
      rw [rooms]
      exact clear.real roomId room (running roomId room e)
    · intro roomId room e
      rw [rooms]
      exact clear.alternative roomId room (running roomId room e)
    · intro roomId a n n' mem mem'
      exact clear.stored roomId a n n' (rows roomId _ mem) (rows roomId _ mem')
  | @set process room altName slotName at_ =>
    subst at_
    obtain ⟨-, known, free⟩ := ok
    refine ⟨fun _ => trivial, fun _ => (clear.setAltName_iff tidy room altName slotName).mpr ?_⟩
    intro _
    exact ⟨fun taken => absurd free taken, known⟩
  | @remove process room altName at_ =>
    subst at_
    exact ⟨fun _ => trivial, fun _ => clear.removeAltName room altName⟩
  | @restore process room altName slotName todo rest at_ go =>
    subst at_ go
    exact clear.setAltName_iff tidy room altName slotName
  | @insert process room altName slotName at_ go =>
    subst at_ go
    exact clear.insert_iff _ altName slotName

/-! ## All runs -/

/-- Real names stay clear of alternative ones as long as all steps fit, and a step that does not fit mixes them
up. -/
theorem real_names_stay_clear (players : String → RoomPlayers) :
    (∀ tr s, Run (altMachine players) (fun _ s i x => s.shared.Fits (s.pc i) x) altInit tr s →
      s.shared.Clear) ∧
      ∀ tr s i x w p, Run (altMachine players) Cond.any altInit tr s → s.shared.Clear →
        altMachine players i s.shared (s.pc i) x = some (w, p) →
        (w.Clear ↔ s.shared.Fits (s.pc i) x) := by
  have step : ∀ {C : Cond NameTable AltPc AltInput} {tr s i x w p}, Run (altMachine players) C altInit tr s →
      s.shared.Clear → altMachine players i s.shared (s.pc i) x = some (w, p) →
      (w.Clear ↔ s.shared.Fits (s.pc i) x) := by
    intro C tr s i x w p run clear st
    obtain ⟨tidy, ok⟩ := tidy_of_run run
    exact (altMachine_cases st tidy (ok i)).clear_iff tidy (ok i) clear
  constructor
  · intro tr s run
    induction run with
    | nil =>
      refine ⟨?_, ?_, ?_⟩
      · intro roomId room e
        cases e
      · intro roomId room e
        cases e
      · intro roomId a n n' mem
        cases mem
    | cons run fits st clear => exact (step run clear st).mpr fits
  · intro tr s i x w p run clear st
    exact step run clear st

/-- In one room Alice plays, in the other one Link. -/
def aliceOrLink : String → RoomPlayers := fun apRoomId =>
  ⟨[1], fun n => if n = (if apRoomId = "first" then "Alice" else "Link") then some (0, 1) else none⟩

/-- An upload for the lobby room. -/
def lobbyRoom : UploadRoomRequest := ⟨"room", false, false, false⟩

/-- Alice's room is uploaded, and she is to be known as Link. -/
def calledLink : List (ℕ × AltInput) :=
  [(0, .upload lobbyRoom "first"), (1, .post "room" "Link" (some "Alice")), (1, .go), (1, .go), (1, .go)]

/-- The process starts again, and the room with it. -/
def processStarts (i : ℕ) (apRoomId : String) : List (ℕ × AltInput) :=
  [(i, .restart [("room", ⟨apRoomId, false, false, false, false, 1⟩)]), (i, .go),
    (i, .walk [("Link", "Alice")]), (i, .go), (i, .go), (i, .go)]

/-- The process starts again without the room, and another room is uploaded in its place. -/
def replaced : List (ℕ × AltInput) :=
  [(2, .restart []), (2, .go), (3, .upload lobbyRoom "second")]

/-- Steps that are seen to fit. -/
def fitsBy (s : Conf NameTable AltPc) (i : ℕ) (_ : AltInput) : Bool :=
  match s.pc i with
  | .busy _ (.insert room altName slotName) =>
    (s.shared.rows (s.shared.rooms room).lobbyRoomId).all fun p => decide (p.1 = altName → p.2 = slotName)
  | .busy _ (.restore room ((altName, slotName) :: _) _) =>
    ((s.shared.rooms room).auth altName).isNone && ((s.shared.rooms room).auth slotName).isSome
  | _ => true

lemma fits_of_fitsBy {s : Conf NameTable AltPc} {i : ℕ} {x : AltInput} (h : fitsBy s i x = true) :
    s.shared.Fits (s.pc i) x := by
  unfold fitsBy at h
  unfold NameTable.Fits
  split
  · rename_i e
    rw [e] at h
    intro n mem
    exact of_decide_eq_true (List.all_eq_true.mp h _ mem) rfl
  · rename_i e
    rw [e] at h
    obtain ⟨free, known⟩ := Bool.and_eq_true_iff.mp h
    intro _
    refine ⟨fun taken => absurd (Option.isNone_iff_eq_none.mp free) taken, ?_⟩
    exact Option.isSome_iff_ne_none.mp known
  · trivial

theorem calledLink_clear :
    (finalOf (altMachine aliceOrLink) altInit (calledLink ++ processStarts 2 "first")).shared.Clear := by
  apply (real_names_stay_clear aliceOrLink).1 (traceOf _ _ _)
  have ok : checked (altMachine aliceOrLink) fitsBy altInit (calledLink ++ processStarts 2 "first") = true := by
    decide
  exact exec_run_checked fits_of_fitsBy ok

/-- In the new room Link is a player; his name leads to Alice, who is not in it. -/
theorem replaced_mixedUp :
    ¬∀ players tr s, Run (altMachine players) Cond.any altInit tr s → s.shared.Clear := by
  intro h
  have ok : (exec (altMachine aliceOrLink) altInit []
      (calledLink ++ replaced ++ processStarts 4 "second")).isSome = true := by decide
  have clear := h aliceOrLink _ _ (exec_run_any ok)
  have resolved := clear.real "room" 2 rfl "Link" (by decide)
  revert resolved
  decide

end ArchipelagoXL.Apx
