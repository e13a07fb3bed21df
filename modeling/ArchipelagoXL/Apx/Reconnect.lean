import ArchipelagoXL.Apx.Passwords

/-!
# Connecting twice

A client that was let into a room may send a Connect again (`apx/auth.go`). The first is rewritten by `handleConnect`
and `connectAP` before it goes on to the Archipelago server, a later one by `handleAuthedConnect`. Both put in the real
name, the default for the slot data and the kind of feed; only `connectAP` puts in the password of the room.

`reconnect_same_iff` says which packets are sent on as the same message.
-/

namespace ArchipelagoXL.Apx.Auth

/-! ## Packets -/

structure NetworkVersion where
  class_ : String
  major : ℤ
  minor : ℤ
  build : ℤ
deriving DecidableEq

/-- Go `ConnectMessage`. The tags are a slice, which is nil if the packet has no tags or null for them. -/
structure ConnectMessage where
  cmd : String
  password : Option String
  game : String
  name : String
  uuid : String
  version : NetworkVersion
  itemsHandling : Option ℤ
  tags : Option (List String)
  slotData : Option Bool
  reducedTraffic : Bool
deriving DecidableEq

/-- Go `ConnectUpdateMessage`. -/
structure ConnectUpdateMessage where
  cmd : String
  itemsHandling : Option ℤ
  tags : Option (List String)
deriving DecidableEq

/-- A packet that the room does not only pass on; it may not decode. -/
inductive Packet where
  | connect (raw : Option ConnectMessage)
  | connectUpdate (raw : Option ConnectUpdateMessage)
deriving DecidableEq

/-! ## Rooms and connections -/

/-- What of a room (Go `ApxRoom`) is looked at when a client connects: `auth` has the team and slot of each player,
`hasPassword` is that of the room's info. -/
structure Room where
  perSlotPasswords : Bool
  lobbyEnabled : Bool
  apPassword : String
  hasPassword : Bool
  auth : String → Option (ℤ × ℤ)
  passwords : ℤ → Option String
  fullFeedSlots : ℤ → Bool
  altConnectNames : String → Option String

def Room.validateSlot (s : Room) (name : String) : Option (ℤ × ℤ) := s.auth name

def Room.validatePassword (s : Room) (slotKey : ℤ) (provided : Option String) : Bool :=
  match s.passwords slotKey, provided with
  | some password, some given => password = given
  | _, _ => false

def Room.resolveAltName (s : Room) (name : String) : String :=
  match s.altConnectNames name with
  | some real => real
  | none => name

def Room.isFullFeedAllowed (s : Room) (slotKey : ℤ) : Bool := s.fullFeedSlots slotKey

/-- Go `connectionState`. It is authenticated, and has its connection to the server, once it has its registered
client. -/
structure ConnectionState where
  slotName : Option String
  reduced : Bool
  pendingDatapackGames : List String
  registeredClient : Option Client
  authFailCount : ℕ

/-- A connection as `serveConn` makes it. -/
def ConnectionState.opened (reduced : Bool) : ConnectionState := ⟨none, reduced, [], none, 0⟩

/-- How far the server goes along with a new connection. -/
inductive Dialogue where
  | undialed
  | silent
  | deaf
  | mute
  | answered (response : List ServerMessage)
deriving DecidableEq

/-- What the environment decides while a packet is handled: whether the client and the server take what is written to
them, how the server goes along with a new connection, and the address of a new client. -/
structure World where
  clientWritable : Bool
  serverWritable : Bool
  server : Dialogue
  address : ℕ

/-- What the client gets, what the server gets, and the closing of the connection. -/
inductive Sent where
  | invalidPacket (originalCmd : String)
  | connectionRefused (errors : List String)
  | dataPackages (games : List String)
  | answer (response : List ServerMessage)
  | connect (msg : ConnectMessage)
  | connectUpdate (msg : ConnectUpdateMessage)
  | close (reason : String)
  | closeNow
deriving DecidableEq

/-- What handling a packet comes to: the connection, what is done to the registry, what is sent, and the texts that
wrap the error that it ends with. -/
structure Handled where
  conn : ConnectionState
  op : Option RegistryOp
  sent : List Sent
  error : Option (List String)

/-! ## Handlers -/

def ConnectionState.sendInvalidPacket (conn : ConnectionState) (cmd : String) (w : World) : Handled :=
  if w.clientWritable then ⟨conn, none, [.invalidPacket cmd], none⟩
  else ⟨conn, none, [], some []⟩

def ConnectionState.sendConnectionRefused (conn : ConnectionState) (reason : String) (w : World) : Handled :=
  if w.clientWritable then
    let conn := { conn with authFailCount := conn.authFailCount + 1 }
    if conn.authFailCount > 10 then ⟨conn, none, [.connectionRefused [reason], .close reason], none⟩
    else ⟨conn, none, [.connectionRefused [reason]], none⟩
  else ⟨conn, none, [.closeNow], some []⟩

/-- What `connectAP` comes back with. -/
inductive Joined where
  | failed (error : String)
  | refused
  | connected (slotId : ℤ) (game : String)

def Room.connectAP (s : Room) (reduced : Bool) (connectMsg : ConnectMessage) (w : World) : Joined × List Sent :=
  let connectMsg :=
    if s.lobbyEnabled then
      if s.hasPassword then { connectMsg with password := some s.apPassword }
      else { connectMsg with password := none }
    else connectMsg
  match w.server with
  | .undialed => (.failed "dialing AP server", [])
  | .silent => (.failed "reading RoomInfo from AP", [])
  | .deaf => (.failed "forwarding Connect to AP", [])
  | .mute => (.failed "reading Connected from AP", [.connect { connectMsg with reducedTraffic := reduced }])
  | .answered response =>
    let sent := [.connect { connectMsg with reducedTraffic := reduced }]
    if !w.clientWritable then (.failed "forwarding Connected to client", sent)
    else
      match readAnswer response (0, "") with
      | none => (.refused, sent ++ [.answer response])
      | some (slotId, game) => (.connected slotId game, sent ++ [.answer response])

def Room.handleConnect (s : Room) (conn : ConnectionState) (raw : Option ConnectMessage) (w : World) : Handled :=
  match raw with
  | none => conn.sendInvalidPacket "Connect" w
  | some msg =>
    let msg := { msg with slotData := some (msg.slotData.getD true) }
    let msg := { msg with name := (s.altConnectNames msg.name).getD msg.name }
    let conn := { conn with slotName := some msg.name }
    match s.validateSlot msg.name with
    | none => conn.sendConnectionRefused "InvalidSlot" w
    | some (_, slotKey) =>
      if s.perSlotPasswords && !s.validatePassword slotKey msg.password then
        conn.sendConnectionRefused "InvalidPassword" w
      else if !conn.reduced && !s.isFullFeedAllowed slotKey then
        conn.sendConnectionRefused "FullFeedDenial" w
      else
        -- an error here is only logged
        let packages := if conn.pendingDatapackGames = [] then [] else [Sent.dataPackages conn.pendingDatapackGames]
        let conn := { conn with pendingDatapackGames := [] }
        match s.connectAP conn.reduced msg w with
        | (.failed error, sent) => ⟨conn, none, packages ++ sent, some ["connecting to AP", error]⟩
        | (.refused, sent) =>
          let conn := { conn with authFailCount := conn.authFailCount + 1 }
          if conn.authFailCount > 10 then ⟨conn, none, packages ++ sent ++ [.close "ConnectionRefused"], none⟩
          else ⟨conn, none, packages ++ sent, none⟩
        | (.connected slotId game, sent) =>
          let client : Client := ⟨w.address, slotId, game⟩
          ⟨{ conn with registeredClient := some client }, some (.register client (msg.tags.getD [])),
            packages ++ sent, none⟩

def Room.handleAuthedConnect (s : Room) (conn : ConnectionState) (client : Client) (raw : Option ConnectMessage)
    (w : World) : Handled :=
  match raw with
  | none => conn.sendInvalidPacket "Connect" w
  | some msg =>
    let msg := { msg with slotData := some (msg.slotData.getD true) }
    let msg := { msg with name := s.resolveAltName msg.name }
    if conn.slotName.any fun slotName => slotName ≠ msg.name then ⟨conn, none, [.close "SlotSwitch"], none⟩
    else
      let msg := { msg with reducedTraffic := conn.reduced }
      if w.serverWritable then ⟨conn, some (.updateTags client (msg.tags.getD [])), [.connect msg], none⟩
      else ⟨conn, none, [], some ["forwarding reconnect to AP"]⟩

/-- Go `handleConnectUpdate`; the packet is sent on as it came. -/
def handleConnectUpdate (conn : ConnectionState) (client : Client) (raw : Option ConnectUpdateMessage) (w : World) :
    Handled :=
  match raw with
  | none => conn.sendInvalidPacket "ConnectUpdate" w
  | some msg =>
    let op := some (.updateTags client (msg.tags.getD []))
    if w.serverWritable then ⟨conn, op, [.connectUpdate msg], none⟩
    else ⟨conn, op, [], some []⟩

def Room.handleMessage (s : Room) (conn : ConnectionState) (packet : Packet) (w : World) : Handled :=
  match conn.registeredClient with
  | some client =>
    match packet with
    | .connect raw => s.handleAuthedConnect conn client raw w
    | .connectUpdate raw => handleConnectUpdate conn client raw w
  | none =>
    match packet with
    | .connect raw => s.handleConnect conn raw w
    | .connectUpdate _ => ⟨conn, none, [], none⟩

/-! ## The message for the server -/

/-- The password that the server asks for. -/
def Room.roomPassword (s : Room) : Option String := if s.hasPassword then some s.apPassword else none

/-- A message with the real name, the default for the slot data and the kind of feed. -/
def Room.rewrite (s : Room) (reduced : Bool) (msg : ConnectMessage) : ConnectMessage :=
  { msg with
    name := s.resolveAltName msg.name
    slotData := some (msg.slotData.getD true)
    reducedTraffic := reduced }

/-- The checks that a new connection has to pass. -/
structure Room.Admits (s : Room) (reduced : Bool) (slotKey : ℤ) (password : Option String) : Prop where
  password : s.perSlotPasswords = true → s.validatePassword slotKey password = true
  feed : reduced = false → s.isFullFeedAllowed slotKey = true

/-- The server takes the Connect of a new connection. -/
def Dialogue.Takes : Dialogue → Prop
  | .undialed | .silent | .deaf => False
  | .mute | .answered _ => True

/-- A packet is sent on for a new connection and for one that is in, and it is the same message. -/
def Room.SameConnect (s : Room) (conn : ConnectionState) (msg : ConnectMessage) : Prop :=
  ∀ (w w' : World) (m : ConnectMessage), w'.serverWritable = true →
    .connect m ∈ (s.handleMessage (.opened conn.reduced) (.connect (some msg)) w).sent →
    (s.handleMessage conn (.connect (some msg)) w').sent = [.connect m]

variable {s : Room} {conn : ConnectionState} {msg m : ConnectMessage} {w : World}

lemma Room.getD_altConnectNames (s : Room) (name : String) :
    (s.altConnectNames name).getD name = s.resolveAltName name := by
  rw [Room.resolveAltName]
  cases s.altConnectNames name <;> rfl

lemma ConnectionState.connect_notMem_refused {reason : String} :
    .connect m ∉ (conn.sendConnectionRefused reason w).sent := by
  rw [ConnectionState.sendConnectionRefused]
  split
  · simp only
    split <;> simp
  · simp

/-- `connectAP` sends a message on with the password of the room, if there is a lobby. -/
lemma Room.mem_connectAP {reduced : Bool} :
    .connect m ∈ (s.connectAP reduced msg w).2 ↔
      w.server.Takes ∧ m = { msg with
        password := if s.lobbyEnabled then s.roomPassword else msg.password
        reducedTraffic := reduced } := by
  have same : (if s.lobbyEnabled then
      if s.hasPassword then { msg with password := some s.apPassword } else { msg with password := none }
    else msg) = { msg with password := if s.lobbyEnabled then s.roomPassword else msg.password } := by
    rw [Room.roomPassword]
    split
    · split <;> rfl
    · rfl
  rw [Room.connectAP, same]
  cases server : w.server with
  | undialed => simp [Dialogue.Takes]
  | silent => simp [Dialogue.Takes]
  | deaf => simp [Dialogue.Takes]
  | mute => simp [Dialogue.Takes]
  | answered response =>
    simp only [Dialogue.Takes]
    split
    · simp
    · split <;> simp

/-- A new connection that passes the checks has its message sent on, with the password of the room if there is a
lobby. -/
lemma Room.mem_handleConnect :
    .connect m ∈ (s.handleConnect conn (some msg) w).sent ↔
      (∃ team slotKey, s.validateSlot (s.resolveAltName msg.name) = some (team, slotKey) ∧
        s.Admits conn.reduced slotKey msg.password) ∧
      w.server.Takes ∧ m = { s.rewrite conn.reduced msg with
        password := if s.lobbyEnabled then s.roomPassword else msg.password } := by
  rw [Room.handleConnect]
  simp only [Room.getD_altConnectNames]
  cases slot : s.validateSlot (s.resolveAltName msg.name) with
  | none => simp [ConnectionState.connect_notMem_refused]
  | some entry =>
    obtain ⟨team, slotKey⟩ := entry
    have admits : (∃ team' slotKey', some (team, slotKey) = some (team', slotKey') ∧
        s.Admits conn.reduced slotKey' msg.password) ↔ s.Admits conn.reduced slotKey msg.password := by
      constructor
      · rintro ⟨team', slotKey', same, admits⟩
        cases same
        exact admits
      · exact fun admits => ⟨team, slotKey, rfl, admits⟩
    rw [admits]
    simp only
    split
    case isTrue wrong =>
      rw [Bool.and_eq_true, Bool.not_eq_true'] at wrong
      refine iff_of_false ConnectionState.connect_notMem_refused ?_
      rintro ⟨admits, -⟩
      rw [admits.password wrong.1] at wrong
      cases wrong.2
    case isFalse right =>
      split
      case isTrue wrong =>
        rw [Bool.and_eq_true, Bool.not_eq_true', Bool.not_eq_true'] at wrong
        refine iff_of_false ConnectionState.connect_notMem_refused ?_
        rintro ⟨admits, -⟩
        rw [admits.feed wrong.1] at wrong
        cases wrong.2
      case isFalse allowed =>
        have admits : s.Admits conn.reduced slotKey msg.password := by
          constructor
          · intro perSlot
            rw [perSlot, Bool.true_and, Bool.not_eq_true', Bool.not_eq_false] at right
            exact right
          · intro full
            rw [full, Bool.not_false, Bool.true_and, Bool.not_eq_true', Bool.not_eq_false] at allowed
            exact allowed
        rw [and_iff_right admits]
        have sends := @Room.mem_connectAP s { msg with
          slotData := some (msg.slotData.getD true)
          name := s.resolveAltName msg.name } m w conn.reduced
        have packages : .connect m ∉ (if conn.pendingDatapackGames = [] then []
            else [Sent.dataPackages conn.pendingDatapackGames]) := by
          split <;> simp
        rw [Room.rewrite, ← sends]
        split
        case h_1 e => simp [e, packages]
        case h_2 e => split <;> simp [e, packages]
        case h_3 e => simp [e, packages]

/-- For a connection that is in, a packet that names its slot is sent on with the password it came with. -/
lemma Room.sent_handleAuthedConnect {client : Client} (named : conn.slotName = some (s.resolveAltName msg.name))
    (writable : w.serverWritable = true) :
    (s.handleAuthedConnect conn client (some msg) w).sent = [.connect (s.rewrite conn.reduced msg)] := by
  have stays : (conn.slotName.any fun slotName => slotName ≠ s.resolveAltName msg.name) = false := by
    rw [named, Option.any_some]
    exact decide_eq_false (not_not_intro rfl)
  rw [Room.handleAuthedConnect]
  simp only [stays, writable]
  rfl

/-- A repeated Connect is the same Connect just if the packet is one that a new connection would be refused for, if
there is no lobby, or if it comes with the password of the room. -/
theorem reconnect_same_iff (s : Room) (conn : ConnectionState) (msg : ConnectMessage)
    (authenticated : conn.registeredClient.isSome) (named : conn.slotName = some (s.resolveAltName msg.name)) :
    s.SameConnect conn msg ↔
      ∀ team slotKey, s.validateSlot (s.resolveAltName msg.name) = some (team, slotKey) →
        s.Admits conn.reduced slotKey msg.password →
        s.lobbyEnabled = true → msg.password = s.roomPassword := by
  obtain ⟨client, registered⟩ := Option.isSome_iff_exists.mp authenticated
  have again : ∀ w' : World, w'.serverWritable = true →
      (s.handleMessage conn (.connect (some msg)) w').sent = [.connect (s.rewrite conn.reduced msg)] := by
    intro w' writable
    rw [Room.handleMessage, registered]
    exact Room.sent_handleAuthedConnect named writable
  have first : ∀ w, s.handleMessage (.opened conn.reduced) (.connect (some msg)) w =
      s.handleConnect (.opened conn.reduced) (some msg) w := fun _ => rfl
  constructor
  · intro same team slotKey slot admits lobby
    let w : World := ⟨true, true, .mute, 0⟩
    have sent := same w w _ rfl (Room.mem_handleConnect.mpr ⟨⟨team, slotKey, slot, admits⟩, trivial, rfl⟩)
    rw [again w rfl, List.cons.injEq, Sent.connect.injEq] at sent
    have password := congrArg ConnectMessage.password sent.1
    rw [if_pos lobby] at password
    exact password
  · intro holds w w' m writable sent
    rw [first, Room.mem_handleConnect] at sent
    obtain ⟨⟨team, slotKey, slot, admits⟩, -, rfl⟩ := sent
    rw [again w' writable, List.cons.injEq, Sent.connect.injEq]
    refine ⟨?_, rfl⟩
    cases lobby : s.lobbyEnabled with
    | false => rfl
    | true =>
      rw [if_pos rfl, ← holds team slotKey slot admits lobby]
      rfl

/-- A room of one slot, with a password of its own and one for the slot; there may be a lobby. -/
def annsRoom (lobbyEnabled : Bool) : Room where
  perSlotPasswords := true
  lobbyEnabled := lobbyEnabled
  apPassword := "room"
  hasPassword := true
  auth name := if name = "Ann" then some (0, 1) else none
  passwords slotKey := if slotKey = 1 then some "ann" else none
  fullFeedSlots _ := false
  altConnectNames name := if name = "A" then some "Ann" else none

/-- The slot is in, with a reduced feed. -/
def annsConnection : ConnectionState := ⟨some "Ann", true, [], some ⟨0, 1, "Celeste"⟩, 0⟩

/-- What it connects with. -/
def annsConnect : ConnectMessage where
  cmd := "Connect"
  password := some "ann"
  game := "Celeste"
  name := "A"
  uuid := "1"
  version := ⟨"Version", 0, 6, 0⟩
  itemsHandling := some 7
  tags := some ["DeathLink"]
  slotData := none
  reducedTraffic := false

theorem anns_connect_repeated : (annsRoom false).SameConnect annsConnection annsConnect :=
  (reconnect_same_iff (annsRoom false) annsConnection annsConnect rfl rfl).mpr
    fun _ _ _ _ lobby => absurd lobby Bool.false_ne_true

/-- The first Connect goes on with the password of the room, the second with that of the slot. -/
theorem reconnect_password :
    ¬ ∀ (s : Room) (conn : ConnectionState) (msg : ConnectMessage), conn.registeredClient.isSome →
      conn.slotName = some (s.resolveAltName msg.name) → s.SameConnect conn msg := by
  intro same
  let w : World := ⟨true, true, .mute, 0⟩
  let first : ConnectMessage := { (annsRoom true).rewrite true annsConnect with password := some "room" }
  have sent := same (annsRoom true) annsConnection annsConnect rfl rfl w w first rfl (by decide)
  revert sent
  decide

end ArchipelagoXL.Apx.Auth
