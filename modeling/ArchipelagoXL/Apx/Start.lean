import ArchipelagoXL.Lib.Interleave
import ArchipelagoXL.Apx.HandlerIds
import ArchipelagoXL.Apx.Rooms
import ArchipelagoXL.Apx.DataPackages
import Mathlib.Algebra.BigOperators.Group.Finset.Basic

/-!
# Starting a room

A start takes what a room needs one after the other (`startNewHostedRoom` in `apx/api.go`): its
datapackages, two pollers, two handler ids and the place in the registry. Each of these can fail, and
other starts, uploads and removals go on meanwhile, so every access to something shared is a step.
`handleRoomStart` changes rows of the room before that.

What a call has taken it gives back only in part when it fails, and `handleRoomStart` never takes its
writes back. A call leaves no trace as long as it fails early, and a request as long as it has found nothing to
change (`failed_starts_leave_no_trace`).

A room that is made has an address from the beginning of the call. What was added to the counts of
the cache on behalf of each call is written down next to them, and each request keeps what its writes found and
left (`Hosting.added`, `RowsWrite`); nothing reads either. A failure to get the datapackages ends the process,
and with it the run. The server's password and the settings of a room in memory are left out.
-/

namespace ArchipelagoXL.Apx

open Interleave

/-! ## What is shared -/

/-- What the cache counts: the references to a wrapper, by its key, and to a datapackage, by its
checksum. -/
inductive CountKey where
  | wrapper (gameKey : String)
  | datapackage (checksum : String)

/-- A count of the cache; what is not there counts nothing. -/
def GlobalDataPackageCache.references (c : GlobalDataPackageCache) : CountKey → ℤ
  | .wrapper gameKey => ((c.byGameKey gameKey).map CachedGameDataPackage.refCount).getD 0
  | .datapackage checksum => ((c.byChecksum checksum).map fun a => (c.heap a).refCount).getD 0

/-- The pollers of a room. -/
inductive Poller where
  | checkedLocations
  | roomInfo
deriving DecidableEq

/-- What the calls share: the registry, the cache, the datapackages and the running pollers of each room by
its address, the store with the handler ids of its rows, and how many addresses were given. -/
structure Hosting where
  registry : RoomRegistry
  cache : GlobalDataPackageCache
  datapackages : ℕ → DataPackageStore
  pollers : ℕ → Poller → Bool
  store : RoomStore
  handlerIds : String → ℤ × ℤ
  made : ℕ
  added : ℕ → CountKey → ℤ
  failed : List ℕ

/-- The cache changes on behalf of a room. -/
def Hosting.account (w : Hosting) (apx : ℕ) (cache : GlobalDataPackageCache) : Hosting :=
  { w with
    cache := cache
    added := Function.update w.added apx fun k =>
      w.added apx k + (cache.references k - w.cache.references k) }

/-- Go `AddDataPackage`, for the room at an address. -/
def Hosting.addDataPackage (w : Hosting) (apx : ℕ) (p : Package) : Hosting :=
  let (cache, store) := Apx.addDataPackage w.cache (w.datapackages apx) p.1 p.2
  { w.account apx cache with datapackages := Function.update w.datapackages apx store }

/-- A poller starts. -/
def Hosting.startPoller (w : Hosting) (apx : ℕ) (poller : Poller) : Hosting :=
  { w with pollers := Function.update w.pollers apx (Function.update (w.pollers apx) poller true) }

/-- The context of a room is cancelled, and its pollers end. -/
def Hosting.cancel (w : Hosting) (apx : ℕ) : Hosting :=
  { w with pollers := Function.update w.pollers apx fun _ => false }

/-- Go `Remove`. -/
def Hosting.remove (w : Hosting) (roomId : String) : Hosting :=
  match w.registry.rooms roomId with
  | none => w
  | some room =>
    let w := w.cancel room.apx
    let w := w.account room.apx ((w.datapackages room.apx).release w.cache)
    { w with registry := w.registry.remove roomId }

/-- A call of `startNewHostedRoom` returns an error. -/
def Hosting.fail (w : Hosting) (apx : ℕ) : Hosting := { w with failed := apx :: w.failed }

/-! ## The rows of a room -/

/-- The rows of a room that a start can change. -/
structure StartRows where
  disabled : Option Bool
  tagExclusions : List (ℤ × String)
  fullFeed : List ℤ
deriving DecidableEq

/-- The rows of a room as they are. -/
def RoomStore.startRows (db : RoomStore) (roomId : String) : StartRows :=
  ⟨(db.rooms roomId).map RoomRecord.disabled, db.bounceTagExclusions roomId, db.fullFeed roomId⟩

/-- The writes of `handleRoomStart`. -/
inductive StartWrite where
  | dropTags
  | dropFullFeed
  | enable
deriving DecidableEq

/-- What a write does. -/
def StartWrite.run (write : StartWrite) (db : RoomStore) (roomId : String) : RoomStore :=
  match write with
  | .dropTags => db.deleteBounceTagExclusionsForTag roomId "DeathLink"
  | .dropFullFeed => db.deleteFullFeedSlots roomId
  | .enable => db.updateRoom roomId fun row => { row with disabled := false }

/-- A write finds something to change. -/
def StartWrite.finds (write : StartWrite) (rows : StartRows) : Bool :=
  match write with
  | .dropTags => rows.tagExclusions.any fun p => decide (p.2 = "DeathLink")
  | .dropFullFeed => !rows.fullFeed.isEmpty
  | .enable => rows.disabled = some true

/-- A write that was made, with the rows that it found and left. -/
structure RowsWrite where
  write : StartWrite
  before : StartRows
  after : StartRows
deriving DecidableEq

/-! ## The calls -/

/-- What `handleRoomStart` knows after it has read the row. -/
structure StartRequest where
  roomId : String
  record : RoomRecord
  handlerIds : ℤ × ℤ
  req : RoomStartRequest
  writes : List RowsWrite

/-- The arguments of `startNewHostedRoom`, the address of the room, the status of success, and the writes
of the request that calls it. -/
structure StartCall where
  apx : ℕ
  apRoomId : String
  lobbyRoomId : String
  normalIdPtr : Option ℤ
  reducedIdPtr : Option ℤ
  perSlotPasswords : Bool
  deathlinkDisabled : Bool
  reducedAccess : Bool
  success : ℕ
  writes : List RowsWrite

/-- What is fetched from the servers before anything is taken. -/
inductive Fetch where
  | port
  | players
  | roomInfo
  | spheres
  | passwords
deriving DecidableEq

/-- What a request is answered, and the writes that it made. -/
structure Answer where
  status : ℕ
  error : Option String
  writes : List RowsWrite

/-- Where a thread is: between calls, at a step of `handleRoomStart`, of `handleUploadRoom` or of
`startNewHostedRoom`, or back with an answer. -/
inductive StartPc where
  | idle
  | startGet (roomId : String) (body : Option RoomStartRequest)
  | startFind (roomId : String) (body : Option RoomStartRequest)
  | dropTags (r : StartRequest)
  | dropFullFeed (r : StartRequest)
  | enable (r : StartRequest)
  | poll (r : StartRequest)
  | forward (req : UploadRoomRequest)
  | newGet (c : StartCall)
  | fetch (c : StartCall) (what : Fetch)
  | prefetch (c : StartCall)
  | addPackages (c : StartCall) (todo : List Package)
  | startPollers (c : StartCall) (todo : List Poller)
  | allocate (c : StartCall)
  | cancel (c : StartCall) (err : String)
  | add (c : StartCall) (normal reduced : ApxHandler)
  | save (c : StartCall) (normal reduced : ApxHandler)
  | answered (a : Answer)

/-- What the environment decides: the calls, what the servers answer, where the search for ids
begins. A body that cannot be decoded is `none`, one that is absent has no options. -/
inductive StartInput where
  | start (roomId : String) (body : Option RoomStartRequest)
  | upload (req : UploadRoomRequest)
  | remove (roomId : String)
  | apRoom (roomID : String)
  | games (gameData : WalkMap String GameData)
  | draw (n : ℕ)
  | go
  | fail (err : String)

/-- What comes after a fetch. -/
def StartCall.afterFetch (c : StartCall) : Fetch → StartPc
  | .port => .fetch c .players
  | .players => .fetch c .roomInfo
  | .roomInfo => .fetch c .spheres
  | .spheres => if c.perSlotPasswords then .fetch c .passwords else .prefetch c
  | .passwords => .prefetch c

/-- The error of a fetch. -/
def StartCall.fetchError (c : StartCall) (apApiRoot : String) (what : Fetch) (err : String) : String :=
  match what with
  | .port => err
  | .players =>
    "failed to get " ++ apApiRoot ++ "/api/room/" ++ c.apRoomId ++
      "/players from AP server, aborting: " ++ err
  | .roomInfo => "failed to get RoomInfo from AP server, aborting: " ++ err
  | .spheres => "prefetching spheres: " ++ err
  | .passwords => "failed to fetch slot passwords: " ++ err

/-- A request is answered with an error. -/
def refused (status : ℕ) (error : String) (writes : List RowsWrite) : StartPc :=
  .answered ⟨status, some error, writes⟩

/-- A call returns an error, and the request that made it is answered with it. -/
def Hosting.failWith (w : Hosting) (c : StartCall) (err : String) : Hosting × StartPc :=
  (w.fail c.apx, refused 500 ("failed to start room: " ++ err) c.writes)

/-- A write of a request. -/
def Hosting.write (w : Hosting) (r : StartRequest) (write : StartWrite) : Hosting × StartRequest :=
  let store := write.run w.store r.roomId
  ({ w with store := store },
    { r with writes := ⟨write, w.store.startRows r.roomId, store.startRows r.roomId⟩ :: r.writes })

/-- The call of a start request. -/
def StartRequest.call (r : StartRequest) (apx : ℕ) : StartCall where
  apx := apx
  apRoomId := r.record.apRoomId
  lobbyRoomId := r.roomId
  normalIdPtr := some r.handlerIds.1
  reducedIdPtr := some r.handlerIds.2
  perSlotPasswords := r.req.perSlotPasswords.getD r.record.perSlotPasswords
  deathlinkDisabled := r.req.deathlinkDisabled.getD r.record.deathlinkDisabled
  reducedAccess := r.req.reducedAccess.getD r.record.reducedAccess
  success := 200
  writes := r.writes

/-- The call of an upload. -/
def UploadRoomRequest.call (req : UploadRoomRequest) (apRoomId : String) (apx : ℕ) : StartCall where
  apx := apx
  apRoomId := apRoomId
  lobbyRoomId := req.roomId apRoomId
  normalIdPtr := none
  reducedIdPtr := none
  perSlotPasswords := req.perSlotPasswords
  deathlinkDisabled := req.deathlinkDisabled
  reducedAccess := req.reducedAccess
  success := 201
  writes := []

/-- A call begins: the room gets its address. -/
def Hosting.begin (w : Hosting) (call : ℕ → StartCall) : Hosting × StartPc :=
  ({ w with made := w.made + 1 }, .newGet (call w.made))

/-- The handlers of the room of a call, with the ids it had before. -/
def StartCall.handler (c : StartCall) (reduced : Bool) : ApxHandler :=
  ⟨c.apx, reduced, ((if reduced then c.reducedIdPtr else c.normalIdPtr).getD 0)⟩

/-- One step of a thread; `apApiRoot` is the address of the Archipelago server. -/
def startMachine (apApiRoot : String) : Machine Hosting StartPc StartInput := fun _ w pc x =>
  match pc, x with
  | .idle, .remove roomId => some (w.remove roomId, .idle)
  -- Go `handleRoomStart`
  | .idle, .start roomId body => some (w, .startGet roomId body)
  | .startGet roomId body, .go =>
    match w.registry.rooms roomId with
    | some _ => some (w, refused 409 "room already running" [])
    | none => some (w, .startFind roomId body)
  | .startFind _ _, .fail _ => some (w, refused 500 "failed to query store" [])
  | .startFind roomId body, .go =>
    match w.store.rooms roomId, body with
    | none, _ => some (w, refused 404 "room not found" [])
    | some _, none => some (w, refused 400 "invalid request body" [])
    | some record, some req => some (w, .dropTags ⟨roomId, record, w.handlerIds roomId, req, []⟩)
  | .dropTags r, .go =>
    if r.req.deathlinkDisabled.any (· != r.record.deathlinkDisabled) then
      let (w, r) := w.write r .dropTags
      some (w, .dropFullFeed r)
    else some (w, .dropFullFeed r)
  -- the failure of a delete is only logged
  | .dropTags r, .fail _ => some (w, .dropFullFeed r)
  | .dropFullFeed r, .go =>
    if r.req.reducedAccess.any (· != r.record.reducedAccess) then
      let (w, r) := w.write r .dropFullFeed
      some (w, .enable r)
    else some (w, .enable r)
  | .dropFullFeed r, .fail _ => some (w, .enable r)
  | .enable r, .go =>
    if r.record.disabled then
      let (w, r) := w.write r .enable
      some (w, .poll r)
    else
      match w.registry.rooms r.roomId with
      | some _ => some (w, .answered ⟨200, none, r.writes⟩)
      | none => some (w, .poll r)
  | .enable r, .fail _ =>
    if r.record.disabled then some (w, refused 500 "failed to re-enable room" r.writes) else none
  | .poll r, .go => some (w.begin r.call)
  | .poll r, .fail err => some (w, refused 504 ("AP room did not come online in time: " ++ err) r.writes)
  -- Go `handleUploadRoom`
  | .idle, .upload req => some (w, .forward req)
  | .forward _, .fail err => some (w, refused 502 ("uploading to AP: " ++ err) [])
  | .forward req, .apRoom roomID =>
    if roomID = "" then some (w, refused 502 "AP server returned no room_id" [])
    else some (w.begin (req.call roomID))
  -- Go `startNewHostedRoom`
  | .newGet c, .go =>
    match w.registry.rooms c.lobbyRoomId with
    | some _ => some (w.failWith c ("room already exists: " ++ c.lobbyRoomId))
    | none => some (w, .fetch c .port)
  | .fetch c what, .go => some (w, c.afterFetch what)
  | .fetch c what, .fail err => some (w.failWith c (c.fetchError apApiRoot what err))
  | .prefetch c, .games gameData => some (w, .addPackages c gameData.entries)
  | .addPackages c (p :: todo), .go => some (w.addDataPackage c.apx p, .addPackages c todo)
  | .addPackages c [], .go => some (w, .startPollers c [.checkedLocations, .roomInfo])
  | .startPollers c (poller :: todo), .go => some (w.startPoller c.apx poller, .startPollers c todo)
  | .startPollers c [], .go => some (w, .allocate c)
  | .allocate c, .draw n =>
    let a := w.registry.allocateAndRegisterHandlerPair (c.handler false) (c.handler true) n
    let w := { w with registry := a.registry }
    match a.err with
    | some err => some (w, .cancel c ("allocating handler IDs: " ++ err))
    | none => some (w, .add c a.normal a.reduced)
  | .cancel c err, .go => some ((w.cancel c.apx).failWith c err)
  | .add c normal reduced, .go =>
    match w.registry.add ⟨c.lobbyRoomId, c.apx, normal, reduced⟩ with
    | .error _ => some (w.failWith c ("room already exists: " ++ c.lobbyRoomId))
    | .ok registry => some ({ w with registry := registry }, .save c normal reduced)
  | .save c normal reduced, .go =>
    some ({ w with
        store := w.store.save c.lobbyRoomId c.apRoomId c.perSlotPasswords c.deathlinkDisabled
          c.reducedAccess
        handlerIds := Function.update w.handlerIds c.lobbyRoomId (normal.id, reduced.id) },
      .answered ⟨c.success, none, c.writes⟩)
  | .save c _ _, .fail _ => some (w, .answered ⟨c.success, none, c.writes⟩)
  | _, _ => none

/-- A new process, with what the store has. -/
def startInit (store : RoomStore) (handlerIds : String → ℤ × ℤ) : Conf Hosting StartPc where
  shared :=
    { registry := .new
      cache := newGlobalDataPackageCache
      datapackages := fun _ => newDataPackageStore
      pollers := fun _ _ => false
      store := store
      handlerIds := handlerIds
      made := 0
      added := fun _ _ => 0
      failed := [] }
  pc := fun _ => .idle

/-! ## Leaving no trace -/

/-- Nothing in the registry belongs to a room. -/
structure Hosting.Unregistered (w : Hosting) (apx : ℕ) : Prop where
  rooms : ∀ lobby room, w.registry.rooms lobby = some room → room.apx ≠ apx
  handlers : ∀ id handler, w.registry.idToHandler id = some handler → handler.server ≠ apx

/-- The counts of the cache are what was added on behalf of the rooms. -/
def Hosting.Accounted (w : Hosting) : Prop :=
  ∀ k, w.cache.references k = ∑ apx ∈ Finset.range w.made, w.added apx k

/-- Calls that failed have left nothing, and requests that were refused no change. -/
structure NoTrace (s : Conf Hosting StartPc) : Prop where
  accounted : s.shared.Accounted
  registry : ∀ apx ∈ s.shared.failed, s.shared.Unregistered apx
  references : ∀ apx ∈ s.shared.failed, ∀ k, s.shared.added apx k = 0
  pollers : ∀ apx ∈ s.shared.failed, ∀ poller, s.shared.pollers apx poller = false
  rows : ∀ i a, s.pc i = .answered a → a.error.isSome → ∀ wr ∈ a.writes, wr.after = wr.before

/-- The writes of a request have found nothing to change. -/
def FoundNothing (writes : List RowsWrite) : Prop := ∀ wr ∈ writes, wr.write.finds wr.before = false

/-- A step does not fail late: no error is answered after a write that has found something to change, there are
two ids for a room with datapackages, and no other room was added meanwhile. -/
def Hosting.InTime (w : Hosting) (pc : StartPc) (x : StartInput) : Prop :=
  match pc, x with
  | .enable r, .fail _ => FoundNothing r.writes
  | .poll r, .fail _ => FoundNothing r.writes
  | .newGet c, _ => (w.registry.rooms c.lobbyRoomId).isSome → FoundNothing c.writes
  | .fetch c _, .fail _ => FoundNothing c.writes
  | .allocate c, _ =>
    w.registry.freeIds.card < 2 → (w.datapackages c.apx).gameKeys = [] ∧ FoundNothing c.writes
  | .add c _ _, _ => w.registry.rooms c.lobbyRoomId = none
  | _, _ => True

/-! ## What is shared stays in order -/

/-- Whatever is there belongs to a call that began and has not failed; a room without datapackages has added
nothing to the counts. -/
structure Hosting.Sound (w : Hosting) : Prop where
  rooms : ∀ lobby room, w.registry.rooms lobby = some room → room.apx < w.made ∧ room.apx ∉ w.failed
  handlers : ∀ id handler, w.registry.idToHandler id = some handler →
    handler.server < w.made ∧ handler.server ∉ w.failed
  pollers : ∀ apx poller, w.pollers apx poller = true → apx < w.made ∧ apx ∉ w.failed
  added : ∀ apx, (w.datapackages apx).gameKeys = [] → ∀ k, w.added apx k = 0
  unused : ∀ apx, w.made ≤ apx → (w.datapackages apx).gameKeys = []
  failed : ∀ apx ∈ w.failed, apx < w.made ∧ (w.datapackages apx).gameKeys = []
  accounted : w.Accounted

/-- A call is under way. -/
structure Hosting.Began (w : Hosting) (apx : ℕ) : Prop where
  made : apx < w.made
  failed : apx ∉ w.failed

/-- What a step leaves of a call that is not its own. -/
structure Hosting.Spares (w w' : Hosting) (apx : ℕ) : Prop where
  began : w.Began apx → w'.Began apx
  unregistered : w.Unregistered apx → w'.Unregistered apx
  datapackages : w'.datapackages apx = w.datapackages apx
  pollers : ∀ poller, w'.pollers apx poller = true → w.pollers apx poller = true

lemma Hosting.Spares.refl (w : Hosting) (apx : ℕ) : w.Spares w apx := ⟨id, id, rfl, fun _ => id⟩

/-- What a room adds is accounted for. -/
lemma Hosting.Accounted.account {w : Hosting} (h : w.Accounted) {apx : ℕ} (made : apx < w.made)
    (cache : GlobalDataPackageCache) : (w.account apx cache).Accounted := by
  intro k
  have mem : apx ∈ Finset.range w.made := Finset.mem_range.mpr made
  have before := (h k).trans (Finset.add_sum_erase _ _ mem).symm
  have others : ∑ n ∈ (Finset.range w.made).erase apx, (w.account apx cache).added n k =
      ∑ n ∈ (Finset.range w.made).erase apx, w.added n k := by
    apply Finset.sum_congr rfl
    intro n hn
    exact congrFun (Function.update_of_ne (Finset.ne_of_mem_erase hn) ..) k
  have own : (w.account apx cache).added apx k =
      w.added apx k + (cache.references k - w.cache.references k) := by
    show Function.update w.added apx _ apx k = _
    rw [Function.update_self]
  show cache.references k = ∑ n ∈ Finset.range w.made, (w.account apx cache).added n k
  rw [← Finset.add_sum_erase _ _ mem, others, own]
  omega

/-- Writes to the store. -/
lemma Hosting.Sound.stored {w : Hosting} (h : w.Sound) (store : RoomStore) (handlerIds : String → ℤ × ℤ) :
    Hosting.Sound { w with store := store, handlerIds := handlerIds } :=
  ⟨h.rooms, h.handlers, h.pollers, h.added, h.unused, h.failed, h.accounted⟩

lemma Hosting.spares_stored (w : Hosting) (store : RoomStore) (handlerIds : String → ℤ × ℤ) (apx : ℕ) :
    w.Spares { w with store := store, handlerIds := handlerIds } apx :=
  ⟨fun h => ⟨h.made, h.failed⟩, fun h => ⟨h.rooms, h.handlers⟩, rfl, fun _ => id⟩

/-- A call begins. -/
lemma Hosting.Sound.made {w : Hosting} (h : w.Sound) : Hosting.Sound { w with made := w.made + 1 } where
  rooms lobby room e := ⟨Nat.lt_succ_of_lt (h.rooms lobby room e).1, (h.rooms lobby room e).2⟩
  handlers id handler e := ⟨Nat.lt_succ_of_lt (h.handlers id handler e).1, (h.handlers id handler e).2⟩
  pollers apx poller e := ⟨Nat.lt_succ_of_lt (h.pollers apx poller e).1, (h.pollers apx poller e).2⟩
  added := h.added
  unused apx le := h.unused apx (Nat.le_of_succ_le le)
  failed apx mem := ⟨Nat.lt_succ_of_lt (h.failed apx mem).1, (h.failed apx mem).2⟩
  accounted k := by
    show _ = ∑ apx ∈ Finset.range (w.made + 1), w.added apx k
    rw [Finset.sum_range_succ, h.added w.made (h.unused w.made (Nat.le_refl _)) k, add_zero]
    exact h.accounted k

lemma Hosting.spares_made (w : Hosting) (apx : ℕ) : w.Spares { w with made := w.made + 1 } apx :=
  ⟨fun h => ⟨Nat.lt_succ_of_lt h.made, h.failed⟩, fun h => ⟨h.rooms, h.handlers⟩, rfl, fun _ => id⟩

/-- Of the address that comes next nothing is there. -/
lemma Hosting.Sound.unregistered_made {w : Hosting} (h : w.Sound) : w.Unregistered w.made where
  rooms lobby room e := Nat.ne_of_lt (h.rooms lobby room e).1
  handlers id handler e := Nat.ne_of_lt (h.handlers id handler e).1

lemma Hosting.Sound.pollers_made {w : Hosting} (h : w.Sound) (poller : Poller) :
    w.pollers w.made poller = false := by
  cases e : w.pollers w.made poller with
  | false => rfl
  | true => exact absurd (h.pollers _ _ e).1 (Nat.lt_irrefl _)

lemma Hosting.Sound.notFailed_made {w : Hosting} (h : w.Sound) : w.made ∉ w.failed :=
  fun mem => Nat.lt_irrefl _ (h.failed _ mem).1

/-- `AddDataPackage` files a key with the room. -/
lemma gameKeys_addDataPackage (w : Hosting) (apx : ℕ) (p : Package) :
    ((w.addDataPackage apx p).datapackages apx).gameKeys ≠ [] := by
  unfold Hosting.addDataPackage Apx.addDataPackage
  simp [DataPackageStore.attachWrapper]

lemma Hosting.Sound.addDataPackage {w : Hosting} (h : w.Sound) {apx : ℕ} (began : w.Began apx)
    (p : Package) : (w.addDataPackage apx p).Sound where
  rooms := h.rooms
  handlers := h.handlers
  pollers := h.pollers
  added other nothing k := by
    by_cases e : other = apx
    · subst e
      exact absurd nothing (gameKeys_addDataPackage w other p)
    · have same : (w.addDataPackage apx p).datapackages other = w.datapackages other :=
        Function.update_of_ne e ..
      rw [same] at nothing
      exact (congrFun (Function.update_of_ne e ..) k).trans (h.added other nothing k)
  unused other le := by
    have ne : other ≠ apx := fun e => Nat.not_lt_of_le le (e ▸ began.made)
    have same : (w.addDataPackage apx p).datapackages other = w.datapackages other :=
      Function.update_of_ne ne ..
    rw [same]
    exact h.unused other le
  failed other mem := by
    have ne : other ≠ apx := fun e => began.failed (e ▸ mem)
    have same : (w.addDataPackage apx p).datapackages other = w.datapackages other :=
      Function.update_of_ne ne ..
    rw [same]
    exact h.failed other mem
  accounted := h.accounted.account began.made _

lemma Hosting.spares_addDataPackage (w : Hosting) {apx other : ℕ} (ne : other ≠ apx) (p : Package) :
    w.Spares (w.addDataPackage apx p) other :=
  ⟨fun h => ⟨h.made, h.failed⟩, fun h => ⟨h.rooms, h.handlers⟩, Function.update_of_ne ne .., fun _ => id⟩

lemma Hosting.Sound.startPoller {w : Hosting} (h : w.Sound) {apx : ℕ} (began : w.Began apx)
    (poller : Poller) : (w.startPoller apx poller).Sound where
  rooms := h.rooms
  handlers := h.handlers
  pollers other p e := by
    by_cases same : other = apx
    · rw [same]
      exact ⟨began.made, began.failed⟩
    · exact h.pollers other p ((congrFun (Function.update_of_ne same ..) p).symm.trans e)
  added := h.added
  unused := h.unused
  failed := h.failed
  accounted := h.accounted

lemma Hosting.spares_startPoller (w : Hosting) {apx other : ℕ} (ne : other ≠ apx) (poller : Poller) :
    w.Spares (w.startPoller apx poller) other where
  began h := ⟨h.made, h.failed⟩
  unregistered h := ⟨h.rooms, h.handlers⟩
  datapackages := rfl
  pollers p e := (congrFun (Function.update_of_ne ne ..) p).symm.trans e

lemma Hosting.pollers_cancel {w : Hosting} {apx other : ℕ} {poller : Poller}
    (e : (w.cancel apx).pollers other poller = true) : w.pollers other poller = true := by
  by_cases same : other = apx
  · subst same
    have off := (congrFun (Function.update_self ..) poller).symm.trans e
    cases off
  · exact (congrFun (Function.update_of_ne same ..) poller).symm.trans e

lemma Hosting.Sound.cancel {w : Hosting} (h : w.Sound) (apx : ℕ) : (w.cancel apx).Sound :=
  ⟨h.rooms, h.handlers, fun other p e => h.pollers other p (Hosting.pollers_cancel e), h.added, h.unused,
    h.failed, h.accounted⟩

lemma Hosting.spares_cancel (w : Hosting) (apx other : ℕ) : w.Spares (w.cancel apx) other :=
  ⟨fun h => ⟨h.made, h.failed⟩, fun h => ⟨h.rooms, h.handlers⟩, rfl, fun _ => Hosting.pollers_cancel⟩

/-- What the registry has after a removal it had before. -/
lemma RoomRegistry.remove_le {r : RoomRegistry} {roomId : String} :
    (∀ lobby room, (r.remove roomId).rooms lobby = some room → r.rooms lobby = some room) ∧
      ∀ id handler, (r.remove roomId).idToHandler id = some handler →
        r.idToHandler id = some handler := by
  have less : ∀ {A B : Type} [DecidableEq A] {f : A → Option B} {a b : A} {v : B},
      Function.update f a none b = some v → f b = some v := by
    intro A B _ f a b v e
    by_cases same : b = a
    · rw [same, Function.update_self] at e
      cases e
    · rwa [Function.update_of_ne same] at e
  constructor
  · intro lobby room e
    exact less e
  · intro id handler e
    unfold RoomRegistry.remove at e
    cases present : r.rooms roomId with
    | none => simpa only [present] using e
    | some room =>
      simp only [present] at e
      exact less (less e)

lemma Hosting.Sound.remove {w : Hosting} (h : w.Sound) (roomId : String) : (w.remove roomId).Sound := by
  unfold Hosting.remove
  split
  · exact h
  · rename_i room present
    have cancelled := h.cancel room.apx
    have made := (h.rooms roomId room present).1
    refine ⟨?_, ?_, cancelled.pollers, ?_, h.unused, h.failed, cancelled.accounted.account made _⟩
    · intro lobby other e
      exact h.rooms lobby other (RoomRegistry.remove_le.1 lobby other e)
    · intro id handler e
      exact h.handlers id handler (RoomRegistry.remove_le.2 id handler e)
    · intro other nothing k
      by_cases e : other = room.apx
      · subst e
        have nothing : (w.datapackages room.apx).gameKeys = [] := nothing
        have still : (w.datapackages room.apx).release w.cache = w.cache := by
          rw [DataPackageStore.release, nothing]
          rfl
        have zero := h.added room.apx nothing k
        show Function.update w.added room.apx (fun k => w.added room.apx k +
          (((w.datapackages room.apx).release w.cache).references k - w.cache.references k)) room.apx k = 0
        rw [Function.update_self, still, zero]
        omega
      · exact (congrFun (Function.update_of_ne e ..) k).trans (h.added other nothing k)

lemma Hosting.spares_remove (w : Hosting) (roomId : String) (apx : ℕ) :
    w.Spares (w.remove roomId) apx := by
  unfold Hosting.remove
  split
  · exact .refl w apx
  · refine ⟨fun h => ⟨h.made, h.failed⟩, ?_, rfl, fun _ => Hosting.pollers_cancel⟩
    intro h
    exact ⟨fun lobby room e => h.rooms lobby room (RoomRegistry.remove_le.1 lobby room e),
      fun id handler e => h.handlers id handler (RoomRegistry.remove_le.2 id handler e)⟩

/-- A call fails that has left nothing. -/
lemma Hosting.Sound.fail {w : Hosting} (h : w.Sound) {apx : ℕ} (made : apx < w.made)
    (unregistered : w.Unregistered apx) (nothing : (w.datapackages apx).gameKeys = [])
    (off : ∀ poller, w.pollers apx poller = false) : (w.fail apx).Sound where
  rooms lobby room e := by
    obtain ⟨lt, notFailed⟩ := h.rooms lobby room e
    exact ⟨lt, List.not_mem_cons_of_ne_of_not_mem (unregistered.rooms lobby room e) notFailed⟩
  handlers id handler e := by
    obtain ⟨lt, notFailed⟩ := h.handlers id handler e
    exact ⟨lt, List.not_mem_cons_of_ne_of_not_mem (unregistered.handlers id handler e) notFailed⟩
  pollers other poller e := by
    obtain ⟨lt, notFailed⟩ := h.pollers other poller e
    refine ⟨lt, List.not_mem_cons_of_ne_of_not_mem ?_ notFailed⟩
    rintro rfl
    have on : w.pollers other poller = true := e
    rw [off poller] at on
    cases on
  added := h.added
  unused := h.unused
  failed other mem := by
    rcases List.mem_cons.mp mem with rfl | mem
    · exact ⟨made, nothing⟩
    · exact h.failed other mem
  accounted := h.accounted

lemma Hosting.spares_fail (w : Hosting) {apx other : ℕ} (ne : other ≠ apx) : w.Spares (w.fail apx) other :=
  ⟨fun h => ⟨h.made, List.not_mem_cons_of_ne_of_not_mem ne h.failed⟩, fun h => ⟨h.rooms, h.handlers⟩, rfl,
    fun _ => id⟩

/-- What the registry has after an allocation are the handlers of the call, or it had them before. -/
lemma StartCall.allocate_le (c : StartCall) (r : RoomRegistry) (n : ℕ) :
    let a := r.allocateAndRegisterHandlerPair (c.handler false) (c.handler true) n
    a.registry.rooms = r.rooms ∧ ∀ id handler, a.registry.idToHandler id = some handler →
      handler.server = c.apx ∨ r.idToHandler id = some handler := by
  intro a
  have spec : a.Correct r (c.handler false) (c.handler true) := allocate_spec ..
  cases err : a.err with
  | some _ =>
    have same : a.registry = r := (spec.unchanged (by rw [err]; rfl)).1
    rw [same]
    exact ⟨rfl, fun id handler e => .inr e⟩
  | none =>
    obtain ⟨rooms, table⟩ := spec.filed err
    obtain ⟨normal, reduced⟩ := spec.handlers err
    refine ⟨rooms, ?_⟩
    intro id handler e
    rw [table] at e
    by_cases isReduced : id = a.reduced.id
    · rw [isReduced, Function.update_self] at e
      cases e
      exact .inl (congrArg ApxHandler.server reduced)
    · rw [Function.update_of_ne isReduced] at e
      by_cases isNormal : id = a.normal.id
      · rw [isNormal, Function.update_self] at e
        cases e
        exact .inl (congrArg ApxHandler.server normal)
      · rw [Function.update_of_ne isNormal] at e
        exact .inr e

/-- The registry after the allocation of a call. -/
def Hosting.allocate (w : Hosting) (c : StartCall) (n : ℕ) : Hosting :=
  { w with registry :=
      (w.registry.allocateAndRegisterHandlerPair (c.handler false) (c.handler true) n).registry }

lemma Hosting.Sound.allocate {w : Hosting} (h : w.Sound) {c : StartCall} (began : w.Began c.apx)
    (n : ℕ) : (w.allocate c n).Sound := by
  obtain ⟨rooms, handlers⟩ := c.allocate_le w.registry n
  refine ⟨?_, ?_, h.pollers, h.added, h.unused, h.failed, h.accounted⟩
  · intro lobby room e
    exact h.rooms lobby room (rooms ▸ e)
  · intro id handler e
    rcases handlers id handler e with server | e
    · exact server.symm ▸ ⟨began.made, began.failed⟩
    · exact h.handlers id handler e

lemma Hosting.spares_allocate (w : Hosting) (c : StartCall) (n : ℕ) {other : ℕ} (ne : other ≠ c.apx) :
    w.Spares (w.allocate c n) other := by
  obtain ⟨rooms, handlers⟩ := c.allocate_le w.registry n
  refine ⟨fun h => ⟨h.made, h.failed⟩, ?_, rfl, fun _ => id⟩
  intro h
  constructor
  · intro lobby room e
    exact h.rooms lobby room (rooms ▸ e)
  · intro id handler e
    rcases handlers id handler e with server | e
    · exact server ▸ ne.symm
    · exact h.handlers id handler e

/-- The room of a call is added. -/
lemma Hosting.Sound.add {w : Hosting} (h : w.Sound) {room : StartedRoom} (began : w.Began room.apx) :
    Hosting.Sound { w with
      registry := { w.registry with
        rooms := Function.update w.registry.rooms room.lobbyRoomId (some room) } } := by
  refine ⟨?_, h.handlers, h.pollers, h.added, h.unused, h.failed, h.accounted⟩
  intro lobby other e
  by_cases same : lobby = room.lobbyRoomId
  · subst same
    have e := (Function.update_self ..).symm.trans e
    cases e
    exact ⟨began.made, began.failed⟩
  · exact h.rooms lobby other ((Function.update_of_ne same ..).symm.trans e)

lemma Hosting.spares_add (w : Hosting) (room : StartedRoom) {other : ℕ} (ne : other ≠ room.apx) :
    w.Spares { w with
      registry := { w.registry with
        rooms := Function.update w.registry.rooms room.lobbyRoomId (some room) } } other := by
  refine ⟨fun h => ⟨h.made, h.failed⟩, ?_, rfl, fun _ => id⟩
  intro h
  refine ⟨?_, h.handlers⟩
  intro lobby other e
  by_cases same : lobby = room.lobbyRoomId
  · subst same
    have e := (Function.update_self ..).symm.trans e
    cases e
    exact ne.symm
  · exact h.rooms lobby other ((Function.update_of_ne same ..).symm.trans e)

/-! ## One step -/

/-- The call that a thread is in, and that may still fail. -/
def StartPc.call : StartPc → Option StartCall
  | .newGet c | .fetch c _ | .prefetch c | .addPackages c _ | .startPollers c _ | .allocate c
  | .cancel c _ | .add c _ _ => some c
  | _ => none

/-- A call that has taken nothing. -/
structure Hosting.Early (w : Hosting) (apx : ℕ) : Prop extends w.Began apx, w.Unregistered apx where
  nothing : (w.datapackages apx).gameKeys = []
  off : ∀ poller, w.pollers apx poller = false

/-- What a call has taken so far. -/
def StartPc.Ok (w : Hosting) : StartPc → Prop
  | .newGet c => w.Early c.apx
  | .fetch c _ => w.Early c.apx
  | .prefetch c => w.Early c.apx
  | .addPackages c _ => w.Began c.apx ∧ w.Unregistered c.apx
  | .startPollers c _ => w.Began c.apx ∧ w.Unregistered c.apx
  | .allocate c => w.Began c.apx ∧ w.Unregistered c.apx
  | .cancel c _ => w.Began c.apx ∧ w.Unregistered c.apx ∧ (w.datapackages c.apx).gameKeys = []
  | .add c _ _ => w.Began c.apx
  | _ => True

lemma Hosting.Early.mono {w w' : Hosting} {apx : ℕ} (spares : w.Spares w' apx) (h : w.Early apx) :
    w'.Early apx where
  toBegan := spares.began h.toBegan
  toUnregistered := spares.unregistered h.toUnregistered
  nothing := spares.datapackages ▸ h.nothing
  off poller := by
    cases e : w'.pollers apx poller with
    | false => rfl
    | true =>
      have on := spares.pollers poller e
      rw [h.off poller] at on
      cases on

lemma StartPc.Ok.began {w : Hosting} {pc : StartPc} (ok : pc.Ok w) {c : StartCall} (e : pc.call = some c) :
    w.Began c.apx := by
  cases pc <;> cases e
  case newGet => exact ok.toBegan
  case fetch => exact ok.toBegan
  case prefetch => exact ok.toBegan
  case addPackages => exact ok.1
  case startPollers => exact ok.1
  case allocate => exact ok.1
  case cancel => exact ok.1
  case add => exact ok

/-- A step that spares a call leaves it what it has taken. -/
lemma StartPc.Ok.mono {w w' : Hosting} {pc : StartPc}
    (spares : ∀ c, pc.call = some c → w.Spares w' c.apx) (ok : pc.Ok w) : pc.Ok w' := by
  cases pc with
  | newGet c => exact Hosting.Early.mono (spares c rfl) ok
  | fetch c what => exact Hosting.Early.mono (spares c rfl) ok
  | prefetch c => exact Hosting.Early.mono (spares c rfl) ok
  | addPackages c todo => exact ⟨(spares c rfl).began ok.1, (spares c rfl).unregistered ok.2⟩
  | startPollers c todo => exact ⟨(spares c rfl).began ok.1, (spares c rfl).unregistered ok.2⟩
  | allocate c => exact ⟨(spares c rfl).began ok.1, (spares c rfl).unregistered ok.2⟩
  | cancel c err =>
    obtain ⟨began, unregistered, nothing⟩ := ok
    exact ⟨(spares c rfl).began began, (spares c rfl).unregistered unregistered,
      (spares c rfl).datapackages ▸ nothing⟩
  | add c normal reduced => exact (spares c rfl).began ok
  | _ => trivial

/-- What a step that is in time does. -/
structure StartStep (w : Hosting) (pc : StartPc) (w' : Hosting) (pc' : StartPc) : Prop where
  sound : w'.Sound
  ok : pc'.Ok w'
  spares : ∀ apx, (∀ c, pc.call = some c → apx ≠ c.apx) → w.Spares w' apx
  calls : ∀ c', pc'.call = some c' → (∃ c, pc.call = some c ∧ c.apx = c'.apx) ∨ c'.apx = w.made

/-- A step outside of a call, which at most writes to the store. -/
lemma Hosting.Sound.outside {w : Hosting} (h : w.Sound) {pc pc' : StartPc} {store : RoomStore}
    {handlerIds : String → ℤ × ℤ} (ok : ∀ w', pc'.Ok w') (calls : pc'.call = none) :
    StartStep w pc { w with store := store, handlerIds := handlerIds } pc' where
  sound := h.stored store handlerIds
  ok := ok _
  spares apx _ := w.spares_stored store handlerIds apx
  calls c' e := by
    rw [calls] at e
    cases e

/-- A step within a call that takes nothing. -/
lemma Hosting.Sound.within {w : Hosting} (h : w.Sound) {pc pc' : StartPc} {c : StartCall}
    (call : pc.call = some c) (ok : pc'.Ok w) (call' : pc'.call = some c) : StartStep w pc w pc' where
  sound := h
  ok := ok
  spares apx _ := .refl w apx
  calls c' e := by
    rw [call'] at e
    cases e
    exact .inl ⟨c, call, rfl⟩

/-- A step in which a call takes something. -/
lemma StartStep.taking {w w' : Hosting} {pc pc' : StartPc} {c : StartCall} (call : pc.call = some c)
    (sound : w'.Sound) (ok : pc'.Ok w') (spares : ∀ apx, apx ≠ c.apx → w.Spares w' apx)
    (call' : pc'.call = some c ∨ pc'.call = none) : StartStep w pc w' pc' where
  sound := sound
  ok := ok
  spares apx ne := spares apx (ne c call)
  calls c' e := by
    rcases call' with call' | call'
    · rw [call'] at e
      cases e
      exact .inl ⟨c, call, rfl⟩
    · rw [call'] at e
      cases e

/-- A call begins. -/
lemma Hosting.Sound.begins {w : Hosting} (h : w.Sound) {pc : StartPc} {call : ℕ → StartCall}
    (apx : (call w.made).apx = w.made) : StartStep w pc (w.begin call).1 (w.begin call).2 where
  sound := h.made
  ok := by
    show Hosting.Early { w with made := w.made + 1 } (call w.made).apx
    rw [apx]
    refine ⟨⟨Nat.lt_succ_self _, h.notFailed_made⟩, ?_, h.unused w.made (Nat.le_refl _), h.pollers_made⟩
    exact ⟨h.unregistered_made.rooms, h.unregistered_made.handlers⟩
  spares other _ := w.spares_made other
  calls c' e := by
    cases e
    exact .inr apx

/-- A call fails that has taken nothing. -/
lemma Hosting.Sound.fails {w : Hosting} (h : w.Sound) {pc : StartPc} {c : StartCall}
    (call : pc.call = some c) (early : w.Early c.apx) (err : String) :
    StartStep w pc (w.failWith c err).1 (w.failWith c err).2 := by
  apply StartStep.taking call
  · exact h.fail early.made early.toUnregistered early.nothing early.off
  · trivial
  · exact fun apx ne => w.spares_fail ne
  · exact .inr rfl

/-- The steps of the requests. -/
lemma request_step {apApiRoot : String} {i : ℕ} {w w' : Hosting} {pc pc' : StartPc} {x : StartInput}
    (h : startMachine apApiRoot i w pc x = some (w', pc')) (sound : w.Sound)
    (request : pc.call = none) : StartStep w pc w' pc' := by
  have stays : ∀ {pc' : StartPc}, (∀ w', pc'.Ok w') → pc'.call = none → StartStep w pc w pc' :=
    fun ok calls => sound.outside ok calls
  cases pc with
  | idle =>
    cases x with
    | remove roomId =>
      cases h
      refine ⟨sound.remove roomId, trivial, fun apx _ => w.spares_remove roomId apx, ?_⟩
      intro c' e
      cases e
    | start roomId body =>
      cases h
      exact stays (fun _ => trivial) rfl
    | upload req =>
      cases h
      exact stays (fun _ => trivial) rfl
    | _ => cases h
  | startGet roomId body =>
    cases x with
    | go =>
      simp only [startMachine] at h
      split at h <;> cases h <;> exact stays (fun _ => trivial) rfl
    | _ => cases h
  | startFind roomId body =>
    cases x with
    | go =>
      simp only [startMachine] at h
      split at h <;> cases h <;> exact stays (fun _ => trivial) rfl
    | fail err =>
      cases h
      exact stays (fun _ => trivial) rfl
    | _ => cases h
  | dropTags r =>
    cases x with
    | go =>
      simp only [startMachine] at h
      split at h
      · cases h
        exact sound.outside (fun _ => trivial) rfl
      · cases h
        exact stays (fun _ => trivial) rfl
    | fail err =>
      cases h
      exact stays (fun _ => trivial) rfl
    | _ => cases h
  | dropFullFeed r =>
    cases x with
    | go =>
      simp only [startMachine] at h
      split at h
      · cases h
        exact sound.outside (fun _ => trivial) rfl
      · cases h
        exact stays (fun _ => trivial) rfl
    | fail err =>
      cases h
      exact stays (fun _ => trivial) rfl
    | _ => cases h
  | enable r =>
    cases x with
    | go =>
      simp only [startMachine] at h
      split at h
      · cases h
        exact sound.outside (fun _ => trivial) rfl
      · split at h <;> cases h <;> exact stays (fun _ => trivial) rfl
    | fail err =>
      simp only [startMachine] at h
      split at h
      · cases h
        exact stays (fun _ => trivial) rfl
      · cases h
    | _ => cases h
  | poll r =>
    cases x with
    | go =>
      cases h
      exact sound.begins rfl
    | fail err =>
      cases h
      exact stays (fun _ => trivial) rfl
    | _ => cases h
  | forward req =>
    cases x with
    | apRoom roomID =>
      simp only [startMachine] at h
      split at h
      · cases h
        exact stays (fun _ => trivial) rfl
      · cases h
        exact sound.begins rfl
    | fail err =>
      cases h
      exact stays (fun _ => trivial) rfl
    | _ => cases h
  | save c normal reduced =>
    cases x with
    | go =>
      cases h
      exact sound.outside (fun _ => trivial) rfl
    | fail err =>
      cases h
      exact stays (fun _ => trivial) rfl
    | _ => cases h
  | answered a => cases h
  | _ => cases request

/-- The steps of a call. -/
lemma call_step {apApiRoot : String} {i : ℕ} {w w' : Hosting} {pc pc' : StartPc} {x : StartInput}
    (h : startMachine apApiRoot i w pc x = some (w', pc')) (sound : w.Sound) (ok : pc.Ok w)
    (inTime : w.InTime pc x) {c : StartCall} (call : pc.call = some c) : StartStep w pc w' pc' := by
  cases pc with
  | newGet c =>
    cases x with
    | go =>
      simp only [startMachine] at h
      split at h
      · cases h
        exact sound.fails rfl ok _
      · cases h
        exact sound.within rfl ok rfl
    | _ => cases h
  | fetch c what =>
    cases x with
    | go =>
      cases h
      cases what with
      | spheres =>
        show StartStep w _ w (if c.perSlotPasswords then _ else _)
        split <;> exact sound.within rfl ok rfl
      | _ => exact sound.within rfl ok rfl
    | fail err =>
      cases h
      exact sound.fails rfl ok _
    | _ => cases h
  | prefetch c =>
    cases x with
    | games gameData =>
      cases h
      exact sound.within rfl ⟨ok.toBegan, ok.toUnregistered⟩ rfl
    | _ => cases h
  | addPackages c todo =>
    obtain ⟨began, unregistered⟩ := ok
    cases x with
    | go =>
      cases todo with
      | nil =>
        cases h
        exact sound.within rfl ⟨began, unregistered⟩ rfl
      | cons p todo =>
        cases h
        apply StartStep.taking rfl (sound.addDataPackage began p)
        · exact ⟨⟨began.made, began.failed⟩, unregistered.rooms, unregistered.handlers⟩
        · exact fun apx ne => w.spares_addDataPackage ne p
        · exact .inl rfl
    | _ => cases todo <;> cases h
  | startPollers c todo =>
    obtain ⟨began, unregistered⟩ := ok
    cases x with
    | go =>
      cases todo with
      | nil =>
        cases h
        exact sound.within rfl ⟨began, unregistered⟩ rfl
      | cons poller todo =>
        cases h
        apply StartStep.taking rfl (sound.startPoller began poller)
        · exact ⟨⟨began.made, began.failed⟩, unregistered.rooms, unregistered.handlers⟩
        · exact fun apx ne => w.spares_startPoller ne poller
        · exact .inl rfl
    | _ => cases todo <;> cases h
  | allocate c =>
    obtain ⟨began, unregistered⟩ := ok
    cases x with
    | draw n =>
      have spec := allocate_spec w.registry (c.handler false) (c.handler true) n
      have allocated := sound.allocate began n
      simp only [startMachine] at h
      split at h
      · rename_i err e
        cases h
        have few := spec.fails.mp (by rw [e]; rfl)
        obtain ⟨rooms, -⟩ := c.allocate_le w.registry n
        apply StartStep.taking rfl allocated
        · refine ⟨⟨began.made, began.failed⟩, ?_, (inTime few).1⟩
          have same := (spec.unchanged (by rw [e]; rfl)).1
          exact ⟨fun lobby room e => unregistered.rooms lobby room (rooms ▸ e),
            fun id handler e => unregistered.handlers id handler (same ▸ e)⟩
        · exact fun apx ne => w.spares_allocate c n ne
        · exact .inl rfl
      · cases h
        apply StartStep.taking rfl allocated
        · exact ⟨began.made, began.failed⟩
        · exact fun apx ne => w.spares_allocate c n ne
        · exact .inl rfl
    | _ => cases h
  | cancel c err =>
    obtain ⟨began, unregistered, nothing⟩ := ok
    cases x with
    | go =>
      cases h
      have off : ∀ poller, (w.cancel c.apx).pollers c.apx poller = false := by
        intro poller
        show Function.update w.pollers c.apx (fun _ => false) c.apx poller = false
        rw [Function.update_self]
      apply StartStep.taking rfl
      · exact (sound.cancel c.apx).fail began.made ⟨unregistered.rooms, unregistered.handlers⟩ nothing off
      · trivial
      · intro apx ne
        have first := w.spares_cancel c.apx apx
        have second := (w.cancel c.apx).spares_fail ne
        exact ⟨fun h => second.began (first.began h), fun h => second.unregistered (first.unregistered h),
          rfl, fun poller e => first.pollers poller (second.pollers poller e)⟩
      · exact .inr rfl
    | _ => cases h
  | add c normal reduced =>
    cases x with
    | go =>
      have free : w.registry.rooms c.lobbyRoomId = none := inTime
      simp only [startMachine, RoomRegistry.add, free] at h
      cases h
      apply StartStep.taking rfl (@Hosting.Sound.add w sound ⟨c.lobbyRoomId, c.apx, normal, reduced⟩ ok)
      · trivial
      · exact fun apx ne => w.spares_add ⟨c.lobbyRoomId, c.apx, normal, reduced⟩ ne
      · exact .inr rfl
    | _ => cases h
  | _ => cases call

/-! ## The writes of a request -/

/-- A write that finds nothing to change leaves the rows as they are. -/
lemma StartWrite.startRows_run {write : StartWrite} {db : RoomStore} {roomId : String}
    (nothing : write.finds (db.startRows roomId) = false) :
    (write.run db roomId).startRows roomId = db.startRows roomId := by
  cases write with
  | dropTags =>
    have kept : deleteWhere (db.bounceTagExclusions roomId) (fun p => decide (p.2 = "DeathLink")) =
        db.bounceTagExclusions roomId := by
      apply List.filter_eq_self.mpr
      intro p hp
      have other := List.any_eq_false.mp nothing p hp
      simpa using other
    show StartRows.mk _ (Function.update db.bounceTagExclusions roomId _ roomId) _ = _
    rw [Function.update_self, kept]
    rfl
  | dropFullFeed =>
    have empty : db.fullFeed roomId = [] := by simpa [StartWrite.finds, RoomStore.startRows] using nothing
    show StartRows.mk _ _ (Function.update db.fullFeed roomId [] roomId) = _
    rw [Function.update_self, RoomStore.startRows, empty]
    rfl
  | enable =>
    have enabled : (db.rooms roomId).map RoomRecord.disabled ≠ some true := of_decide_eq_false nothing
    show StartRows.mk ((Function.update db.rooms roomId _ roomId).map RoomRecord.disabled)
      (db.bounceTagExclusions roomId) (db.fullFeed roomId) = _
    rw [Function.update_self, RoomStore.startRows]
    cases e : db.rooms roomId with
    | none => rfl
    | some row =>
      rw [e] at enabled
      have off : row.disabled = false := by simpa using enabled
      rw [Option.map_some, Option.map_some, Option.map_some, off]

/-- The writes that the request of a thread has made. -/
def StartPc.writes : StartPc → List RowsWrite
  | .dropTags r | .dropFullFeed r | .enable r | .poll r => r.writes
  | .newGet c | .fetch c _ | .prefetch c | .addPackages c _ | .startPollers c _ | .allocate c
  | .cancel c _ | .add c _ _ | .save c _ _ => c.writes
  | .answered a => a.writes
  | _ => []

/-- The request of a thread is answered an error, or will be. -/
def StartPc.failing : StartPc → Bool
  | .answered a => a.error.isSome
  | .cancel _ _ => true
  | _ => false

/-- What is written down is what the writes do, and an error is answered only when nothing was found. -/
structure StartPc.Honest (pc : StartPc) : Prop where
  kept : ∀ wr ∈ pc.writes, wr.write.finds wr.before = false → wr.after = wr.before
  refused : pc.failing = true → FoundNothing pc.writes

lemma StartPc.Honest.go {pc pc' : StartPc} (h : pc.Honest) (writes : pc'.writes = pc.writes)
    (going : pc'.failing = false) : pc'.Honest where
  kept := by
    rw [writes]
    exact h.kept
  refused failing := by
    rw [going] at failing
    cases failing

/-- A request fails that has found nothing. -/
lemma StartPc.Honest.stop {pc pc' : StartPc} (h : pc.Honest) (writes : pc'.writes = pc.writes)
    (nothing : FoundNothing pc.writes) : pc'.Honest where
  kept := by
    rw [writes]
    exact h.kept
  refused _ := by
    rw [writes]
    exact nothing

/-- A request that has written nothing. -/
lemma StartPc.honest_of_nil {pc : StartPc} (writes : pc.writes = []) : pc.Honest where
  kept wr mem := by
    rw [writes] at mem
    cases mem
  refused _ wr mem := by
    rw [writes] at mem
    cases mem

/-- A request writes. -/
lemma StartPc.Honest.write {pc pc' : StartPc} (h : pc.Honest) {w : Hosting} {r : StartRequest}
    {write : StartWrite} (writes : pc.writes = r.writes)
    (writes' : pc'.writes = (w.write r write).2.writes) (going : pc'.failing = false) : pc'.Honest where
  kept wr mem := by
    rw [writes'] at mem
    rcases List.mem_cons.mp mem with rfl | mem
    · exact StartWrite.startRows_run
    · exact h.kept wr (writes ▸ mem)
  refused failing := by
    rw [going] at failing
    cases failing

lemma StartCall.afterFetch_writes (c : StartCall) (what : Fetch) :
    (c.afterFetch what).writes = c.writes ∧ (c.afterFetch what).failing = false := by
  cases what with
  | spheres =>
    rw [StartCall.afterFetch]
    split <;> exact ⟨rfl, rfl⟩
  | _ => exact ⟨rfl, rfl⟩

lemma honest_step {apApiRoot : String} {i : ℕ} {w w' : Hosting} {pc pc' : StartPc} {x : StartInput}
    (h : startMachine apApiRoot i w pc x = some (w', pc')) (honest : pc.Honest) (inTime : w.InTime pc x) :
    pc'.Honest := by
  unfold startMachine at h
  split at h
  -- a removal, and a start
  · cases h
    exact StartPc.honest_of_nil rfl
  · cases h
    exact StartPc.honest_of_nil rfl
  · split at h <;> cases h <;> exact StartPc.honest_of_nil rfl
  · cases h
    exact StartPc.honest_of_nil rfl
  · split at h <;> cases h <;> exact StartPc.honest_of_nil rfl
  -- the writes
  · split at h
    · cases h
      exact honest.write rfl rfl rfl
    · cases h
      exact honest.go rfl rfl
  · cases h
    exact honest.go rfl rfl
  · split at h
    · cases h
      exact honest.write rfl rfl rfl
    · cases h
      exact honest.go rfl rfl
  · cases h
    exact honest.go rfl rfl
  · split at h
    · cases h
      exact honest.write rfl rfl rfl
    · split at h <;> cases h <;> exact honest.go rfl rfl
  · split at h
    · cases h
      exact honest.stop rfl inTime
    · cases h
  · cases h
    exact honest.go rfl rfl
  · cases h
    exact honest.stop rfl inTime
  -- an upload
  · cases h
    exact StartPc.honest_of_nil rfl
  · cases h
    exact StartPc.honest_of_nil rfl
  · split at h <;> cases h <;> exact StartPc.honest_of_nil rfl
  -- a call
  · split at h
    · rename_i e
      cases h
      exact honest.stop rfl (inTime (by rw [e]; rfl))
    · cases h
      exact honest.go rfl rfl
  · rename_i c what
    cases h
    exact honest.go (c.afterFetch_writes what).1 (c.afterFetch_writes what).2
  · cases h
    exact honest.stop rfl inTime
  · cases h
    exact honest.go rfl rfl
  · cases h
    exact honest.go rfl rfl
  · cases h
    exact honest.go rfl rfl
  · cases h
    exact honest.go rfl rfl
  · cases h
    exact honest.go rfl rfl
  · rename_i c n
    have spec := allocate_spec w.registry (c.handler false) (c.handler true) n
    simp only at h
    split at h
    · rename_i err e
      cases h
      have few := spec.fails.mp (by rw [e]; rfl)
      exact honest.stop rfl (inTime few).2
    · cases h
      exact honest.go rfl rfl
  · cases h
    exact honest.stop rfl (honest.refused rfl)
  · rename_i c normal reduced
    have free : w.registry.rooms c.lobbyRoomId = none := inTime
    simp only [RoomRegistry.add, free] at h
    cases h
    exact honest.go rfl rfl
  · cases h
    exact honest.go rfl rfl
  · cases h
    exact honest.go rfl rfl
  · cases h

/-! ## All runs -/

/-- The invariant of the runs whose steps are all in time. -/
structure Traceless (s : Conf Hosting StartPc) : Prop where
  sound : s.shared.Sound
  ok : ∀ i, (s.pc i).Ok s.shared
  apart : ∀ i k c c', i ≠ k → (s.pc i).call = some c → (s.pc k).call = some c' → c.apx ≠ c'.apx
  honest : ∀ i, (s.pc i).Honest

/-- One step of one thread. -/
lemma start_step {apApiRoot : String} {i : ℕ} {w w' : Hosting} {pc pc' : StartPc} {x : StartInput}
    (h : startMachine apApiRoot i w pc x = some (w', pc')) (sound : w.Sound) (ok : pc.Ok w)
    (inTime : w.InTime pc x) : StartStep w pc w' pc' := by
  cases e : pc.call with
  | none => exact request_step h sound e
  | some c => exact call_step h sound ok inTime e

lemma Traceless.step {apApiRoot : String} {s : Conf Hosting StartPc} (kept : Traceless s) {i : ℕ}
    {x : StartInput} {w : Hosting} {p : StartPc} (inTime : s.shared.InTime (s.pc i) x)
    (st : startMachine apApiRoot i s.shared (s.pc i) x = some (w, p)) : Traceless (s.move i w p) := by
  have step := start_step st kept.sound (kept.ok i) inTime
  -- the call of a thread that moves is its own, or a new one
  have others : ∀ k, k ≠ i → ∀ c c', (s.pc k).call = some c → p.call = some c' → c.apx ≠ c'.apx := by
    intro k ne c c' e e'
    rcases step.calls c' e' with ⟨old, call, same⟩ | new
    · exact same ▸ kept.apart k i c old ne e call
    · have began := (kept.ok k).began e
      exact new ▸ Nat.ne_of_lt began.made
  refine ⟨step.sound, ?_, ?_, ?_⟩
  · intro k
    rcases s.move_pc i w p k with ⟨-, e⟩ | ⟨ne, e⟩
    · rw [e]
      exact step.ok
    · rw [e]
      apply (kept.ok k).mono
      intro c call
      exact step.spares c.apx fun c' call' => kept.apart k i c c' ne call call'
  · intro j k c c' ne ej ek
    rcases s.move_pc i w p j with ⟨ji, moved⟩ | ⟨neJ, moved⟩
    · rw [moved] at ej
      have neK : k ≠ i := fun ki => ne (ji.trans ki.symm)
      rw [Conf.move_pc_of_ne neK] at ek
      exact (others k neK c' c ek ej).symm
    · rw [moved] at ej
      rcases s.move_pc i w p k with ⟨-, moved⟩ | ⟨-, moved⟩
      · rw [moved] at ek
        exact others j neJ c c' ej ek
      · rw [moved] at ek
        exact kept.apart j k c c' ne ej ek
  · intro k
    rcases s.move_pc i w p k with ⟨-, e⟩ | ⟨-, e⟩
    · rw [e]
      exact honest_step st (kept.honest i) inTime
    · rw [e]
      exact kept.honest k

lemma traceless_of_run {apApiRoot : String} {store : RoomStore} {handlerIds : String → ℤ × ℤ} {tr s}
    (run : Run (startMachine apApiRoot) (fun _ s i x => s.shared.InTime (s.pc i) x)
      (startInit store handlerIds) tr s) : Traceless s := by
  refine run.invariant (I := fun _ s => Traceless s) ?_ ?_
  · refine ⟨?_, fun _ => trivial, ?_, fun _ => StartPc.honest_of_nil rfl⟩
    · refine ⟨?_, ?_, ?_, fun _ _ _ => rfl, fun _ _ => rfl, ?_, ?_⟩
      · intro lobby room e
        cases e
      · intro id handler e
        cases e
      · intro apx poller e
        cases e
      · intro apx mem
        cases mem
      · intro k
        cases k <;> rfl
    · intro i k c c' _ e
      cases e
  · intro tr s i x w p kept inTime st
    exact kept.step inTime st

/-- Starts that fail in time leave no trace. -/
theorem failed_starts_leave_no_trace (apApiRoot : String) (store : RoomStore)
    (handlerIds : String → ℤ × ℤ) (tr s)
    (run : Run (startMachine apApiRoot) (fun _ s i x => s.shared.InTime (s.pc i) x)
      (startInit store handlerIds) tr s) : NoTrace s := by
  obtain ⟨sound, -, -, honest⟩ := traceless_of_run run
  refine ⟨sound.accounted, ?_, ?_, ?_, ?_⟩
  · intro apx mem
    constructor
    · rintro lobby room e rfl
      exact (sound.rooms lobby room e).2 mem
    · rintro id handler e rfl
      exact (sound.handlers id handler e).2 mem
  · intro apx mem
    exact sound.added apx (sound.failed apx mem).2
  · intro apx mem poller
    cases e : s.shared.pollers apx poller with
    | false => rfl
    | true => exact absurd mem (sound.pollers apx poller e).2
  · intro i a e isSome wr mem
    have own := honest i
    rw [e] at own
    exact own.kept wr mem (own.refused isSome wr mem)

/-- A store with one room. -/
def oneRoom (disabled : Bool) : RoomStore where
  rooms roomId := if roomId = "a" then some ⟨"ap", disabled, false, false, false, 1⟩ else none
  fullFeed _ := []
  slotBounceExclusions _ := []
  bounceTagExclusions _ := []
  altConnectNames _ := []
  slotDeaths _ _ := none

/-- A request to start the room, up to where it waits for the room of the Archipelago server. -/
def startRequest (i : ℕ) : List (ℕ × StartInput) :=
  [(i, .start "a" (some ⟨none, none, none⟩)), (i, .go), (i, .go), (i, .go), (i, .go), (i, .go)]

/-- The first start does not get the players; the second one succeeds, with two ids that the room had
before. -/
def failedThenStarted : List (ℕ × StartInput) :=
  startRequest 0 ++ ([(0, .go), (0, .go), (0, .go), (0, .fail "offline")] : List (ℕ × StartInput)) ++ startRequest 1 ++
    ([(1, .go), (1, .go), (1, .go), (1, .go), (1, .go), (1, .go), (1, .games .empty), (1, .go), (1, .go),
      (1, .go), (1, .go), (1, .draw 0), (1, .go), (1, .go)] : List (ℕ × StartInput))

/-- Steps that are seen to be in time. -/
def inTimeBy (s : Conf Hosting StartPc) (i : ℕ) (x : StartInput) : Bool :=
  match s.pc i, x with
  | .enable _, .fail _ => false
  | .poll _, .fail _ => false
  | .newGet c, _ => c.writes.isEmpty
  | .fetch c _, .fail _ => c.writes.isEmpty
  | .allocate c, _ => (s.shared.datapackages c.apx).gameKeys.isEmpty && c.writes.isEmpty
  | .add c _ _, _ => (s.shared.registry.rooms c.lobbyRoomId).isNone
  | _, _ => true

lemma foundNothing_of_isEmpty {writes : List RowsWrite} (h : writes.isEmpty = true) :
    FoundNothing writes := by
  rw [List.isEmpty_iff.mp h]
  exact fun wr mem => absurd mem List.not_mem_nil

lemma inTime_of_inTimeBy {s : Conf Hosting StartPc} {i : ℕ} {x : StartInput}
    (h : inTimeBy s i x = true) : s.shared.InTime (s.pc i) x := by
  unfold inTimeBy at h
  unfold Hosting.InTime
  split at h
  · cases h
  · cases h
  · exact fun _ => foundNothing_of_isEmpty h
  · exact foundNothing_of_isEmpty h
  · obtain ⟨keys, writes⟩ := Bool.and_eq_true_iff.mp h
    exact fun _ => ⟨List.isEmpty_iff.mp keys, foundNothing_of_isEmpty writes⟩
  · exact Option.isNone_iff_eq_none.mp h
  · trivial

theorem failedThenStarted_noTrace :
    NoTrace (finalOf (startMachine "http://ap") (startInit (oneRoom false) fun _ => (12345, 23456))
      failedThenStarted) := by
  apply failed_starts_leave_no_trace "http://ap" (oneRoom false) (fun _ => (12345, 23456)) (traceOf _ _ _)
  have ok : checked (startMachine "http://ap") inTimeBy
      (startInit (oneRoom false) fun _ => (12345, 23456)) failedThenStarted = true := by decide
  exact exec_run_checked inTime_of_inTimeBy ok

/-- A room is enabled again before it is known whether its server comes up. -/
theorem timedOut_enabled :
    ¬∀ apApiRoot store handlerIds tr s,
      Run (startMachine apApiRoot) Cond.any (startInit store handlerIds) tr s → NoTrace s := by
  intro h
  have ok : (exec (startMachine "http://ap") (startInit (oneRoom true) fun _ => (12345, 23456)) []
      (startRequest 0 ++ [(0, .fail "offline")])).isSome = true := by decide
  have noTrace := h _ _ _ _ _ (exec_run_any ok)
  have kept := noTrace.rows 0 ⟨504, some "AP room did not come online in time: offline",
    [⟨.enable, ⟨some true, [], []⟩, ⟨some false, [], []⟩⟩]⟩ rfl rfl _ (List.mem_singleton_self _)
  cases kept

end ArchipelagoXL.Apx
