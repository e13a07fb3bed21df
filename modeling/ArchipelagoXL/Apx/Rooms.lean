import Mathlib.Data.Finset.Basic
import Mathlib.Data.Rat.Defs
import Mathlib.Algebra.Order.Ring.Rat
import Mathlib.Logic.Function.Basic

/-!
# Rooms, their settings and the store

Model of the room manager of `apx` (`apx/api.go`) with the stores of a room (`apx/bounce.go`,
`apx/server.go`) and the tables it keeps them in (`apx/db.go`). A room has settings in memory: who may have
the full feed, which tags a slot may not send, which slots are kept to themselves, alternative names, the
probability of DeathLinks and their counts. The tables hold what `startNewHostedRoom` and the restore
functions need to build them again; the full feed and the exclusion of DeathLink are stored as the
difference from a default of the room.

Each operation is one step, with all its writes. What the Archipelago server knows of a room does not
change: `players` gives the players for the server's id of the room. The ids of the two handlers,
the server's password and times are left out.
-/

namespace ArchipelagoXL.Apx

/-- The players of a room (Go `RoomPlayers`): its slots, and team and slot for each name. -/
structure RoomPlayers where
  slots : List ℤ
  auth : String → Option (ℤ × ℤ)

/-- Go `bounceInfoStore`; the tags excluded for each slot as pairs. -/
structure BounceInfo where
  counts : ℤ → ℕ
  deathlinkProbability : ℚ
  excludedByTag : Finset (ℤ × String)
  ownSlotOnly : Finset ℤ

/-- A running room (Go `HostedRoom`). -/
structure HostedRoom where
  apRoomId : String
  players : RoomPlayers
  perSlotPasswords : Bool
  deathlinkDisabled : Bool
  reducedAccess : Bool
  bounceInfo : BounceInfo
  fullFeed : Finset ℤ
  altConnectNames : String → Option String

/-- A row of `rooms` (Go `RoomRecord`). -/
structure RoomRecord where
  apRoomId : String
  disabled : Bool
  perSlotPasswords : Bool
  deathlinkDisabled : Bool
  reducedAccess : Bool
  deathlinkProbability : ℚ
deriving DecidableEq

/-- The tables, by lobby room (Go `RoomStore`). -/
structure RoomStore where
  rooms : String → Option RoomRecord
  fullFeed : String → List ℤ
  slotBounceExclusions : String → List ℤ
  bounceTagExclusions : String → List (ℤ × String)
  altConnectNames : String → List (String × String)
  slotDeaths : String → ℤ → Option ℕ

/-! ## The tables -/

/-- SQL `INSERT OR IGNORE`. -/
def insertOrIgnore {A : Type} [DecidableEq A] (rows : List A) (a : A) : List A :=
  if a ∈ rows then rows else rows ++ [a]

/-- SQL `DELETE`. -/
def deleteWhere {A : Type} (rows : List A) (p : A → Bool) : List A := rows.filter fun a => !p a

/-- Go `Save`: a new row has the defaults for what is not given; of an old one `disabled` and the
probability are kept. -/
def RoomStore.save (db : RoomStore) (id apRoomId : String)
    (perSlotPasswords deathlinkDisabled reducedAccess : Bool) : RoomStore :=
  let row : RoomRecord :=
    match db.rooms id with
    | none => ⟨apRoomId, false, perSlotPasswords, deathlinkDisabled, reducedAccess, 1⟩
    | some row =>
      { row with
        apRoomId := apRoomId
        perSlotPasswords := perSlotPasswords
        deathlinkDisabled := deathlinkDisabled
        reducedAccess := reducedAccess }
  { db with rooms := Function.update db.rooms id (some row) }

/-- An update of the row of a room, if there is one. -/
def RoomStore.updateRoom (db : RoomStore) (id : String) (f : RoomRecord → RoomRecord) : RoomStore :=
  { db with rooms := Function.update db.rooms id ((db.rooms id).map f) }

/-- Go `Disable`. -/
def RoomStore.disable (db : RoomStore) (id : String) : RoomStore :=
  db.updateRoom id fun row => { row with disabled := true }

/-- Go `SaveDeathlinkProbability`. -/
def RoomStore.saveDeathlinkProbability (db : RoomStore) (id : String) (p : ℚ) : RoomStore :=
  db.updateRoom id fun row => { row with deathlinkProbability := p }

/-- A row of the full feed table, written or deleted. -/
def RoomStore.writeFullFeed (db : RoomStore) (id : String) (slot : ℤ) (keep : Bool) : RoomStore :=
  { db with
    fullFeed := Function.update db.fullFeed id
      (if keep then insertOrIgnore (db.fullFeed id) slot
        else deleteWhere (db.fullFeed id) fun s => decide (s = slot)) }

/-- Go `SetFullFeedSlot`. -/
def RoomStore.setFullFeedSlot (db : RoomStore) (id : String) (slot : ℤ) : RoomStore :=
  db.writeFullFeed id slot true

/-- Go `DeleteFullFeedSlot`. -/
def RoomStore.deleteFullFeedSlot (db : RoomStore) (id : String) (slot : ℤ) : RoomStore :=
  db.writeFullFeed id slot false

/-- A row of the excluded tags, written or deleted. -/
def RoomStore.writeBounceTag (db : RoomStore) (id : String) (slot : ℤ) (tag : String) (keep : Bool) :
    RoomStore :=
  { db with
    bounceTagExclusions := Function.update db.bounceTagExclusions id
      (if keep then insertOrIgnore (db.bounceTagExclusions id) (slot, tag)
        else deleteWhere (db.bounceTagExclusions id) fun p => decide (p = (slot, tag))) }

/-- Go `AddBounceTagExclusion`. -/
def RoomStore.addBounceTagExclusion (db : RoomStore) (id : String) (slot : ℤ) (tag : String) :
    RoomStore :=
  db.writeBounceTag id slot tag true

/-- Go `DeleteBounceTagExclusion`. -/
def RoomStore.deleteBounceTagExclusion (db : RoomStore) (id : String) (slot : ℤ) (tag : String) :
    RoomStore :=
  db.writeBounceTag id slot tag false

/-- A row of the slots kept to themselves, written or deleted. -/
def RoomStore.writeSlotBounce (db : RoomStore) (id : String) (slot : ℤ) (keep : Bool) : RoomStore :=
  { db with
    slotBounceExclusions := Function.update db.slotBounceExclusions id
      (if keep then insertOrIgnore (db.slotBounceExclusions id) slot
        else deleteWhere (db.slotBounceExclusions id) fun s => decide (s = slot)) }

/-- Go `AddSlotBounceExclusion`. -/
def RoomStore.addSlotBounceExclusion (db : RoomStore) (id : String) (slot : ℤ) : RoomStore :=
  db.writeSlotBounce id slot true

/-- Go `DeleteSlotBounceExclusion`. -/
def RoomStore.deleteSlotBounceExclusion (db : RoomStore) (id : String) (slot : ℤ) : RoomStore :=
  db.writeSlotBounce id slot false

/-- Go `AddAltConnectName`. -/
def RoomStore.addAltConnectName (db : RoomStore) (id altName slotName : String) : RoomStore :=
  { db with
    altConnectNames := Function.update db.altConnectNames id
      (insertOrIgnore (db.altConnectNames id) (altName, slotName)) }

/-- Go `DeleteAltConnectName`. -/
def RoomStore.deleteAltConnectName (db : RoomStore) (id altName : String) : RoomStore :=
  { db with
    altConnectNames := Function.update db.altConnectNames id
      (deleteWhere (db.altConnectNames id) fun p => decide (p.1 = altName)) }

/-- Go `IncrementSlotDeathCount`. -/
def RoomStore.incrementSlotDeathCount (db : RoomStore) (id : String) (slot : ℤ) : RoomStore :=
  { db with
    slotDeaths := Function.update db.slotDeaths id
      (Function.update (db.slotDeaths id) slot (some ((db.slotDeaths id slot).getD 0 + 1))) }

/-- Go `DeleteBounceTagExclusionsForTag`. -/
def RoomStore.deleteBounceTagExclusionsForTag (db : RoomStore) (id tag : String) : RoomStore :=
  { db with
    bounceTagExclusions := Function.update db.bounceTagExclusions id
      (deleteWhere (db.bounceTagExclusions id) fun p => decide (p.2 = tag)) }

/-- Go `DeleteFullFeedSlots`. -/
def RoomStore.deleteFullFeedSlots (db : RoomStore) (id : String) : RoomStore :=
  { db with
    fullFeed := Function.update db.fullFeed id [] }

/-- All that is kept of a room is deleted, and its row (the writes of Go `handleRoomDelete`). -/
def RoomStore.deleteRoom (db : RoomStore) (id : String) : RoomStore where
  rooms := Function.update db.rooms id none
  fullFeed := Function.update db.fullFeed id []
  slotBounceExclusions := Function.update db.slotBounceExclusions id []
  bounceTagExclusions := Function.update db.bounceTagExclusions id []
  altConnectNames := Function.update db.altConnectNames id []
  slotDeaths := Function.update db.slotDeaths id fun _ => none

/-! ## The settings in memory -/

/-- Go `ExcludeByTag` and `UnexcludeByTag`. -/
def BounceInfo.setExcluded (b : BounceInfo) (slot : ℤ) (tag : String) (excluded : Bool) : BounceInfo :=
  { b with
    excludedByTag :=
      if excluded then insert (slot, tag) b.excludedByTag else b.excludedByTag.erase (slot, tag) }

/-- Go `LimitToOwnSlot` and `RemoveLimitToOwnSlot`. -/
def BounceInfo.setLimited (b : BounceInfo) (slot : ℤ) (limited : Bool) : BounceInfo :=
  { b with ownSlotOnly := if limited then insert slot b.ownSlotOnly else b.ownSlotOnly.erase slot }

/-- Go `Add`. -/
def BounceInfo.add (b : BounceInfo) (slot : ℤ) : BounceInfo :=
  { b with counts := Function.update b.counts slot (b.counts slot + 1) }

/-- Go `fullFeedStore.Set` and `fullFeedStore.Delete`. -/
def HostedRoom.setFullFeed (room : HostedRoom) (slot : ℤ) (allowed : Bool) : HostedRoom :=
  { room with
    fullFeed := if allowed then insert slot room.fullFeed else room.fullFeed.erase slot }

/-- The settings of a new room (the part of Go `startNewHostedRoom` that makes them). -/
def newHostedRoom (players : String → RoomPlayers) (apRoomId : String)
    (perSlotPasswords deathlinkDisabled reducedAccess : Bool) (probability : ℚ) : HostedRoom where
  apRoomId := apRoomId
  players := players apRoomId
  perSlotPasswords := perSlotPasswords
  deathlinkDisabled := deathlinkDisabled
  reducedAccess := reducedAccess
  bounceInfo :=
    { counts := fun _ => 0
      deathlinkProbability := probability
      excludedByTag :=
        if deathlinkDisabled then
          (players apRoomId).slots.foldl (fun s slot => insert (slot, "DeathLink") s) ∅
        else ∅
      ownSlotOnly := ∅ }
  fullFeed :=
    if reducedAccess then ∅ else (players apRoomId).slots.foldl (fun s slot => insert slot s) ∅
  altConnectNames := fun _ => none

/-- Go `restoreBounceTagExclusions`: a stored DeathLink is the exception where it is disabled. -/
def HostedRoom.restoreBounceTagExclusions (room : HostedRoom) (rows : List (ℤ × String)) :
    HostedRoom :=
  { room with
    bounceInfo := rows.foldl (fun b p =>
      b.setExcluded p.1 p.2 !(p.2 = "DeathLink" && room.deathlinkDisabled)) room.bounceInfo }

/-- Go `restoreSlotBounceExclusions`. -/
def HostedRoom.restoreSlotBounceExclusions (room : HostedRoom) (rows : List ℤ) : HostedRoom :=
  { room with
    bounceInfo := rows.foldl (fun b slot => b.setLimited slot true) room.bounceInfo }

/-- Go `restoreFullFeedSlots`: a stored slot is the exception from the room's default. -/
def HostedRoom.restoreFullFeedSlots (room : HostedRoom) (rows : List ℤ) : HostedRoom :=
  rows.foldl (fun r slot => r.setFullFeed slot r.reducedAccess) room

/-- Go `restoreSlotDeaths`. -/
def HostedRoom.restoreSlotDeaths (room : HostedRoom) (rows : ℤ → Option ℕ) : HostedRoom :=
  { room with bounceInfo :=
      { room.bounceInfo with counts := fun slot => (rows slot).getD (room.bounceInfo.counts slot) } }

/-- Names given one after the other (Go `SetAltName`). -/
def setAltNames : List (String × String) → (String → Option String) → String → Option String
  | [], names => names
  | (altName, slotName) :: rows, names =>
    setAltNames rows (Function.update names altName (some slotName))

/-- Go `restoreAltConnectNames`. -/
def HostedRoom.restoreAltConnectNames (room : HostedRoom) (rows : List (String × String)) :
    HostedRoom :=
  { room with altConnectNames := setAltNames rows room.altConnectNames }

/-- The five restore functions, one after the other. -/
def HostedRoom.restore (room : HostedRoom) (db : RoomStore) (id : String) : HostedRoom :=
  ((((room.restoreBounceTagExclusions (db.bounceTagExclusions id)).restoreSlotBounceExclusions
    (db.slotBounceExclusions id)).restoreFullFeedSlots (db.fullFeed id)).restoreSlotDeaths
    (db.slotDeaths id)).restoreAltConnectNames (db.altConnectNames id)

/-! ## The manager -/

/-- The running rooms and the store (Go `RoomManager`), and the rooms that were removed: nothing closes
the connections of their players. -/
structure Manager where
  store : RoomStore
  running : String → Option HostedRoom
  removed : List String

/-- Go `registry.Add`. -/
def Manager.add (m : Manager) (id : String) (room : HostedRoom) : Manager :=
  { m with running := Function.update m.running id (some room) }

/-- Go `registry.Remove`. -/
def Manager.remove (m : Manager) (id : String) : Manager :=
  { m with
    running := Function.update m.running id none
    removed := if (m.running id).isSome then id :: m.removed else m.removed }

/-- Go `uploadRoomRequest`. -/
structure UploadRoomRequest where
  lobbyRoomId : String
  perSlotPasswords : Bool
  deathlinkDisabled : Bool
  reducedAccess : Bool
deriving DecidableEq

/-- The lobby room of an upload: without one, the server's id is taken. -/
def UploadRoomRequest.roomId (req : UploadRoomRequest) (apRoomId : String) : String :=
  if req.lobbyRoomId = "" then apRoomId else req.lobbyRoomId

/-- Go `roomStartRequest`. -/
structure RoomStartRequest where
  perSlotPasswords : Option Bool
  deathlinkDisabled : Option Bool
  reducedAccess : Option Bool
deriving DecidableEq

/-- The method of a settings endpoint. -/
inductive Method where
  | post
  | delete
deriving DecidableEq

/-- The operations. An upload names the room that the server made of the file; a start says whether the
server's room came up, and a restart which of them did. A late death comes on a connection to a room
that was removed since. -/
inductive RoomOp where
  | upload (req : UploadRoomRequest) (apRoomId : String)
  | start (id : String) (req : RoomStartRequest) (up : Bool)
  | stop (id : String)
  | kill (id : String)
  | delete (id : String)
  | fullFeed (id : String) (slot : ℤ) (method : Method)
  | bounceExclusion (id : String) (slot : ℤ) (tag : String) (method : Method)
  | slotBounceExclusion (id : String) (slot : ℤ) (method : Method)
  | addAltName (id altName slotName : String)
  | removeAltName (id altName : String)
  | deathlinkProbability (id : String) (probability : ℚ)
  | death (id : String) (slot : ℤ)
  | lateDeath (id : String) (slot : ℤ)
  | restart (up : List String)
deriving DecidableEq

/-- Go `startNewHostedRoom`: the room is made, added and saved. -/
def Manager.startNewHostedRoom (players : String → RoomPlayers) (m : Manager)
    (apRoomId lobbyRoomId : String) (perSlotPasswords deathlinkDisabled reducedAccess : Bool)
    (probability : ℚ) : Except String (Manager × HostedRoom) :=
  match m.running lobbyRoomId with
  | some _ => .error ("room already exists: " ++ lobbyRoomId)
  | none =>
    let room := newHostedRoom players apRoomId perSlotPasswords deathlinkDisabled reducedAccess
      probability
    let store := m.store.save lobbyRoomId apRoomId perSlotPasswords deathlinkDisabled reducedAccess
    .ok ({ m with store := store }.add lobbyRoomId room, room)

/-- Go `handleUploadRoom`, once the server has made a room of the file. -/
def Manager.handleUploadRoom (players : String → RoomPlayers) (m : Manager) (req : UploadRoomRequest)
    (apRoomId : String) : Manager × Option String :=
  match m.startNewHostedRoom players apRoomId (req.roomId apRoomId) req.perSlotPasswords
    req.deathlinkDisabled req.reducedAccess 1 with
  | .error e => (m, some ("failed to start room: " ++ e))
  | .ok (m, _) => (m, none)

/-- The stored overrides that a start makes stale, because it changes the default they are relative
to. -/
def RoomStore.dropStale (db : RoomStore) (id : String) (record : RoomRecord) (req : RoomStartRequest) :
    RoomStore :=
  let db :=
    if req.deathlinkDisabled.any (· != record.deathlinkDisabled) then
      db.deleteBounceTagExclusionsForTag id "DeathLink"
    else db
  if req.reducedAccess.any (· != record.reducedAccess) then db.deleteFullFeedSlots id else db

/-- A disabled row is enabled again. -/
def RoomStore.enable (db : RoomStore) (id : String) (record : RoomRecord) : RoomStore :=
  if record.disabled then db.updateRoom id fun row => { row with disabled := false } else db

/-- Go `handleRoomStart`. -/
def Manager.handleRoomStart (players : String → RoomPlayers) (m : Manager) (id : String)
    (req : RoomStartRequest) (up : Bool) : Manager × Option String :=
  match m.running id, m.store.rooms id with
  | some _, _ => (m, some "room already running")
  | none, none => (m, some "room not found")
  | none, some record =>
    let m := { m with store := (m.store.dropStale id record req).enable id record }
    if up then
      match m.startNewHostedRoom players record.apRoomId id
        (req.perSlotPasswords.getD record.perSlotPasswords)
        (req.deathlinkDisabled.getD record.deathlinkDisabled)
        (req.reducedAccess.getD record.reducedAccess) record.deathlinkProbability with
      | .error e => (m, some ("failed to start room: " ++ e))
      | .ok (m, room) => (m.add id (room.restore m.store id), none)
    else (m, some "AP room did not come online in time")

/-- Go `handleRoomStop`, and the end of an idle room (Go `startRoomKiller`). -/
def Manager.handleRoomStop (m : Manager) (id : String) : Manager × Option String :=
  match m.running id with
  | none => (m, some "room not running")
  | some _ => ({ m with store := m.store.disable id }.remove id, none)

/-- Go `handleRoomDelete`. -/
def Manager.handleRoomDelete (m : Manager) (id : String) : Manager × Option String :=
  match m.store.rooms id with
  | none => (m, some "room not found")
  | some _ => ({ m with store := m.store.deleteRoom id }.remove id, none)

/-- A request for a running room (Go `roomFromRequest`). -/
def Manager.withRoom (m : Manager) (id : String)
    (f : HostedRoom → RoomStore → Except String (HostedRoom × RoomStore)) : Manager × Option String :=
  match m.running id with
  | none => (m, some "room not found")
  | some room =>
    match f room m.store with
    | .error e => (m, some e)
    | .ok (room, store) => ({ m with store := store }.add id room, none)

/-- Go `handleFullFeedUser`. -/
def handleFullFeedUser (id : String) (slot : ℤ) (method : Method) (room : HostedRoom)
    (db : RoomStore) : HostedRoom × RoomStore :=
  let isDefaultEnabled := !room.reducedAccess
  match method with
  | .post =>
    (room.setFullFeed slot true,
      if isDefaultEnabled then db.deleteFullFeedSlot id slot else db.setFullFeedSlot id slot)
  | .delete =>
    (room.setFullFeed slot false,
      if isDefaultEnabled then db.setFullFeedSlot id slot else db.deleteFullFeedSlot id slot)

/-- Go `handleBounceExclusions`. -/
def handleBounceExclusions (id : String) (slot : ℤ) (tag : String) (method : Method)
    (room : HostedRoom) (db : RoomStore) : Except String (HostedRoom × RoomStore) :=
  if tag = "" then .error "missing tag"
  else
    let isDefaultExcluded := tag = "DeathLink" && room.deathlinkDisabled
    match method with
    | .post =>
      .ok ({ room with bounceInfo := room.bounceInfo.setExcluded slot tag true },
        if isDefaultExcluded then db.deleteBounceTagExclusion id slot tag
        else db.addBounceTagExclusion id slot tag)
    | .delete =>
      .ok ({ room with bounceInfo := room.bounceInfo.setExcluded slot tag false },
        if isDefaultExcluded then db.addBounceTagExclusion id slot tag
        else db.deleteBounceTagExclusion id slot tag)

/-- Go `handleSlotBounceExclusions`. -/
def handleSlotBounceExclusions (id : String) (slot : ℤ) (method : Method) (room : HostedRoom)
    (db : RoomStore) : HostedRoom × RoomStore :=
  match method with
  | .post =>
    ({ room with bounceInfo := room.bounceInfo.setLimited slot true }, db.addSlotBounceExclusion id slot)
  | .delete =>
    ({ room with bounceInfo := room.bounceInfo.setLimited slot false },
      db.deleteSlotBounceExclusion id slot)

/-- Go `handleAltConnectName`, `POST`. -/
def handleAddAltName (id altName slotName : String) (room : HostedRoom) (db : RoomStore) :
    Except String (HostedRoom × RoomStore) :=
  if slotName = "" then .error "slot_name is required"
  else if room.players.auth slotName = none then .error "slot not found"
  else if (room.players.auth altName).isSome then .error "alt name is already taken by real slot name"
  else
    match room.altConnectNames altName with
    | some existing =>
      if existing = slotName then .error "alt name already mapped to this slot"
      else .error "alt name is already taken by another slot"
    | none =>
      .ok ({ room with
        altConnectNames := Function.update room.altConnectNames altName (some slotName) },
        db.addAltConnectName id altName slotName)

/-- Go `handleAltConnectName`, `DELETE`. -/
def handleRemoveAltName (id altName : String) (room : HostedRoom) (db : RoomStore) :
    HostedRoom × RoomStore :=
  ({ room with altConnectNames := Function.update room.altConnectNames altName none },
    db.deleteAltConnectName id altName)

/-- Go `handleDeathlinkProbability`, `POST`. -/
def handleDeathlinkProbability (id : String) (probability : ℚ) (room : HostedRoom) (db : RoomStore) :
    Except String (HostedRoom × RoomStore) :=
  if probability < 0 || 1 < probability then .error "probability must be between 0 and 1"
  else
    .ok ({ room with bounceInfo := { room.bounceInfo with deathlinkProbability := probability } },
      db.saveDeathlinkProbability id probability)

/-- A DeathLink of a slot is counted (in Go `handleDeathLink`). -/
def countDeath (id : String) (slot : ℤ) (room : HostedRoom) (db : RoomStore) :
    HostedRoom × RoomStore :=
  ({ room with bounceInfo := room.bounceInfo.add slot }, db.incrementSlotDeathCount id slot)

/-- The room that a restart would make of what is stored: `LoadAll` takes the rooms that are not
disabled, each is started as its row says, and its settings are restored. -/
def restarted (players : String → RoomPlayers) (db : RoomStore) (id : String) : Option HostedRoom :=
  match db.rooms id with
  | none => none
  | some row =>
    if row.disabled then none
    else some ((newHostedRoom players row.apRoomId row.perSlotPasswords row.deathlinkDisabled
      row.reducedAccess row.deathlinkProbability).restore db id)

/-- One operation, with its error. -/
def Manager.step (players : String → RoomPlayers) (m : Manager) : RoomOp → Manager × Option String
  | .upload req apRoomId => m.handleUploadRoom players req apRoomId
  | .start id req up => m.handleRoomStart players id req up
  | .stop id => m.handleRoomStop id
  | .kill id => m.handleRoomStop id
  | .delete id => m.handleRoomDelete id
  | .fullFeed id slot method => m.withRoom id fun room db => .ok (handleFullFeedUser id slot method room db)
  | .bounceExclusion id slot tag method => m.withRoom id (handleBounceExclusions id slot tag method)
  | .slotBounceExclusion id slot method =>
    m.withRoom id fun room db => .ok (handleSlotBounceExclusions id slot method room db)
  | .addAltName id altName slotName => m.withRoom id (handleAddAltName id altName slotName)
  | .removeAltName id altName => m.withRoom id fun room db => .ok (handleRemoveAltName id altName room db)
  | .deathlinkProbability id probability => m.withRoom id (handleDeathlinkProbability id probability)
  | .death id slot => m.withRoom id fun room db => .ok (countDeath id slot room db)
  -- the count in memory is that of the removed room, which nothing reads
  | .lateDeath id slot =>
    if id ∈ m.removed then ({ m with store := m.store.incrementSlotDeathCount id slot }, none)
    else (m, some "no such connection")
  -- the rows are saved again as they are
  | .restart up =>
    ({ m with
      running := fun id => if id ∈ up then restarted players m.store id else none
      removed := [] }, none)

end ArchipelagoXL.Apx
