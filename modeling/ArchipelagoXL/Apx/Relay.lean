import ArchipelagoXL.Apx.Reconnect
import ArchipelagoXL.Apx.Responses
import ArchipelagoXL.Lib.Trimming

/-!
# What the server hears of a client

A client talks to the room and not to the Archipelago server (`serveConn`, `handleMessage`). Each Connect that passes the
checks of the room opens a connection to the server; from the one that the server lets in on, what the client sends is
passed on, but for what the room answers itself.

`server_hears` says for any connection and any number of frames what each of the connections to the server was sent, in
order, and how often a client may be refused before it is let in.
-/

namespace ArchipelagoXL.Apx.Auth

open Trimming

/-! ## Chat commands -/

/-- Go `unicode.IsSpace`. -/
def isSpace (c : Char) : Bool :=
  let n := c.toNat
  (9 ≤ n && n ≤ 13) || n == 0x20 || n == 0x85 || n == 0xa0 || n == 0x1680 || (0x2000 ≤ n && n ≤ 0x200a) ||
    n == 0x2028 || n == 0x2029 || n == 0x202f || n == 0x205f || n == 0x3000

/-- Go `chatCommand`; its handler answers in the chat. -/
structure ChatCommand where
  name : String
  description : String
  handler : String → String

/-- Go `chatCommandGroup`. -/
structure ChatCommandGroup where
  lead : String
  commands : List ChatCommand

/-- The answer to a text that is a command of the group (Go `chatCommandGroup.Handle`). -/
def ChatCommandGroup.handle (g : ChatCommandGroup) (text : List Char) : Option String :=
  let start := '!' :: g.lead.toList
  if start.isPrefixOf text then
    let rest := trimmed isSpace (text.drop start.length)
    match g.commands.find? fun cmd => rest = cmd.name.toList || (cmd.name ++ " ").toList.isPrefixOf rest with
    | some cmd => some (cmd.handler (.ofList (trimmed isSpace (rest.drop cmd.name.toList.length))))
    | none =>
      let lines := g.commands.map fun cmd => s!"!{g.lead} {cmd.name} - {cmd.description}"
      some ("\n".intercalate (s!"=== {g.lead.toUpper} Commands ===" :: lines))
  else none

/-! ## Messages -/

/-- A message of a client: what is read of it, and the text that is passed on. -/
inductive Message where
  | noCmd
  | getDataPackage (games : Option (List String))
  | bounce (raw : String)
  | say (text : Option String) (raw : String)
  | packet (packet : Packet)
  | other (raw : String)

/-- The room as it is while a message is handled: what Connects are checked against, its data packages, the status of a
client and the table of small letters. -/
structure RelayRoom extends Room where
  dataPackages : RoomDataPackageStore
  checksums : WalkMap String String
  statusString : Client → String
  toLower : Char → Char

def RelayRoom.apxCommandGroup (s : RelayRoom) (client : Client) : ChatCommandGroup :=
  ⟨"apx", [⟨"status", "Show room status", fun _ => s.statusString client⟩]⟩

/-- A message in the room that it meets. -/
structure Step where
  room : RelayRoom
  message : Message
  world : World

inductive ToServer where
  | connect (msg : ConnectMessage)
  | connectUpdate (msg : ConnectUpdateMessage)
  | raw (raw : String)
deriving DecidableEq

inductive ToClient where
  | sent (message : Sent)
  | invalidCmd
  | dataPackage (text : String)
  | chat (slot : ℤ) (text : String)
  | relayed (data : String)

/-- What of a packet's handling goes to the server. -/
def Sent.toServer : Sent → Option ToServer
  | .connect msg => some (.connect msg)
  | .connectUpdate msg => some (.connectUpdate msg)
  | _ => none

def Sent.toClient (sent : Sent) : Option ToClient := if sent.toServer = none then some (.sent sent) else none

def Sent.closes : Sent → Bool
  | .close _ => true
  | .closeNow => true
  | _ => false

/-- A client's connection with what it was sent, and what each of the connections to the server was sent that were opened
for it, the newest last. For the record it has the messages that were handled. -/
structure Session where
  conn : ConnectionState
  upstream : List (List ToServer)
  toClient : List ToClient
  ended : Bool
  handled : List Step

/-- What is sent on the newest connection. -/
def extendLast {A : Type} : List (List A) → List A → List (List A)
  | [], _ => []
  | [log], more => [log ++ more]
  | log :: rest, more => log :: extendLast rest more

namespace Session

/-- A connection as `serveConn` makes it. -/
def opened (reduced : Bool) : Session := ⟨.opened reduced, [], [], false, []⟩

/-- A connection that has ended takes nothing more. -/
def worldOf (st : Session) (w : World) : World := { w with clientWritable := w.clientWritable && !st.ended }

def tell (st : Session) (w : World) (message : ToClient) : Session :=
  if w.clientWritable then { st with toClient := st.toClient ++ [message] } else st

def send (st : Session) (w : World) (message : ToServer) : Session :=
  if w.serverWritable then { st with upstream := extendLast st.upstream [message] } else st

/-- A Connect or ConnectUpdate. -/
def receivePacket (st : Session) (s : Room) (packet : Packet) (w : World) : Session :=
  let handled := s.handleMessage st.conn packet w
  let toServer := handled.sent.filterMap Sent.toServer
  { st with
    conn := handled.conn
    upstream :=
      match st.conn.registeredClient with
      | none => st.upstream ++ toServer.map fun message => [message]
      | some _ => extendLast st.upstream toServer
    toClient := st.toClient ++ handled.sent.filterMap Sent.toClient
    ended := st.ended || handled.sent.any Sent.closes }

/-- Go `handleSay`. -/
def handleSay (st : Session) (s : RelayRoom) (client : Client) (text : Option String) (raw : String) (w : World) :
    Session :=
  match text with
  | none => st.tell w (.sent (.invalidPacket "Say"))
  | some text =>
    if text = "" then st.tell w (.sent (.invalidPacket "Say"))
    else
      let trimmed := (trimmed isSpace text.toList).map s.toLower
      if "!countdown".toList.isPrefixOf trimmed then st.tell w (.chat client.slotId "You're not allowed to do this")
      else if "!players".toList.isPrefixOf trimmed then st.tell w (.chat client.slotId "You're not allowed to do this")
      else
        match (s.apxCommandGroup client).handle trimmed with
        | some answer => st.tell w (.chat client.slotId answer)
        | none => st.send w (.raw raw)

/-- Go `handleMessage`; what a Bounce comes to for other clients is not part of this. -/
def handleMessage (st : Session) (s : RelayRoom) (message : Message) (w : World) : Session :=
  match message with
  | .noCmd => st.tell w .invalidCmd
  | .getDataPackage games =>
    match s.dataPackages.handleGetDataPackage s.checksums games with
    | .ok text => st.tell w (.dataPackage text)
    | .error _ => st
  | .bounce _ => st
  | .packet packet => st.receivePacket s.toRoom packet w
  | .say text raw =>
    match st.conn.registeredClient with
    | none => st
    | some client => st.handleSay s client text raw w
  | .other raw =>
    match st.conn.registeredClient with
    | none => st
    | some _ => st.send w (.raw raw)

/-- A message is handled, and noted. -/
def receive (st : Session) (step : Step) : Session :=
  let w := st.worldOf step.world
  let st' := st.handleMessage step.room step.message w
  { st' with handled := st.handled ++ [{ step with world := w }] }

/-- What comes to a connection: a frame of the client, which may not be a list of messages, a frame of the server, which
the client may not take, and its end. -/
inductive Event where
  | frame (messages : Option (List Step))
  | server (data : String) (written : Bool)
  | gone

/-- The loops of Go `serveConn` and `connectAP`. All of the messages of a frame are handled, also when one of them ends
the connection. -/
def step (st : Session) : Event → Session
  | .frame messages =>
    if st.ended then st
    else
      match messages with
      | none => st
      | some messages => messages.foldl receive st
  | .server data written =>
    if st.ended || st.conn.registeredClient.isNone then st
    else if written then { st with toClient := st.toClient ++ [.relayed data] }
    else { st with ended := true }
  | .gone => { st with ended := true }

/-- What some events lead to. -/
def after (reduced : Bool) (events : List Event) : Session := events.foldl step (opened reduced)

end Session

/-! ## What is passed on -/

/-- A chat text that the room answers itself. -/
def RelayRoom.isCommand (s : RelayRoom) (text : String) : Bool :=
  ["!countdown", "!players", "!apx"].any fun start =>
    start.toList.isPrefixOf ((trimmed isSpace text.toList).map s.toLower)

/-- What the server is to hear of a message of a client that is in under a name. -/
def passOn (s : RelayRoom) (reduced : Bool) (slotName : String) : Message → Option ToServer
  | .packet (.connect (some msg)) =>
    if s.resolveAltName msg.name = slotName then some (.connect (s.rewrite reduced msg)) else none
  | .packet (.connectUpdate (some msg)) => some (.connectUpdate msg)
  | .say (some text) raw => if text = "" || s.isCommand text then none else some (.raw raw)
  | .other raw => some (.raw raw)
  | _ => none

/-- What is passed on of a message if the server takes it. -/
def Step.passedOn (reduced : Bool) (slotName : String) (step : Step) : Option ToServer :=
  if step.world.serverWritable then passOn step.room reduced slotName step.message else none

/-- A Connect that the checks of the room let through, and how it goes to the server. -/
structure Room.LetsIn (s : Room) (reduced : Bool) (msg m : ConnectMessage) : Prop where
  slot : ∃ team slotKey, s.auth m.name = some (team, slotKey) ∧ s.Admits reduced slotKey msg.password
  message : m = { s.rewrite reduced msg with
    password := if s.lobbyEnabled then s.roomPassword else msg.password }

/-- A Connect that fails one of these checks. -/
def Room.refuses (s : Room) (reduced : Bool) (msg : ConnectMessage) : Bool :=
  match s.validateSlot (s.resolveAltName msg.name) with
  | none => true
  | some (_, slotKey) =>
    s.perSlotPasswords && !s.validatePassword slotKey msg.password || !reduced && !s.isFullFeedAllowed slotKey

/-- A message that has the server hear of the client. -/
def Step.Opens (reduced : Bool) (step : Step) (m : ConnectMessage) : Prop :=
  ∃ msg, step.message = .packet (.connect (some msg)) ∧ step.room.LetsIn reduced msg m

def Step.refused (reduced : Bool) (step : Step) : Bool :=
  match step.message with
  | .packet (.connect (some msg)) => step.room.refuses reduced msg
  | _ => false

/-- A connection to the server on which there was nothing but a Connect that was let through. -/
def OnlyConnect (reduced : Bool) (steps : List Step) (log : List ToServer) : Prop :=
  ∃ step ∈ steps, ∃ m, step.Opens reduced m ∧ log = [.connect m]

/-- The client is not in: each connection to the server was sent one Connect. -/
structure Session.Outside (reduced : Bool) (st : Session) : Prop where
  feed : st.conn.reduced = reduced
  client : st.conn.registeredClient = none
  logs : ∀ log ∈ st.upstream, OnlyConnect reduced st.handled log
  refusals : st.ended = false →
    st.handled.countP (·.refused reduced) ≤ st.conn.authFailCount ∧ st.conn.authFailCount ≤ 10

/-- The client is in: the newest connection was sent the Connect and then what was to be passed on of each message. -/
structure Session.Inside (reduced : Bool) (st : Session) (before : List Step) (entry : Step) (later : List Step)
    (m : ConnectMessage) : Prop where
  feed : st.conn.reduced = reduced
  client : st.conn.registeredClient.isSome
  name : st.conn.slotName = some m.name
  handled : st.handled = before ++ entry :: later
  entry : entry.Opens reduced m
  refusals : before.countP (·.refused reduced) ≤ 10
  logs : ∃ logs, (∀ log ∈ logs, OnlyConnect reduced before log) ∧
    st.upstream = logs ++ [.connect m :: later.filterMap (Step.passedOn reduced m.name)]

/-! ## Packets -/

section
variable {s : Room} {conn : ConnectionState} {w : World} {reduced : Bool}

/-- The server hears nothing of a refused Connect. -/
lemma ConnectionState.toServer_refused {reason : String} :
    (conn.sendConnectionRefused reason w).sent.filterMap Sent.toServer = [] := by
  rw [sendConnectionRefused]
  split
  · simp only
    split <;> rfl
  · rfl

lemma ConnectionState.toServer_invalid {cmd : String} :
    (conn.sendInvalidPacket cmd w).sent.filterMap Sent.toServer = [] := by
  rw [sendInvalidPacket]
  split <;> rfl

/-- Failures are counted, and the connection ends when there are too many. -/
def Handled.Counts (handled : Handled) (conn : ConnectionState) (failures : ℕ) : Prop :=
  handled.sent.any Sent.closes = true ∨
    conn.authFailCount + failures ≤ handled.conn.authFailCount ∧
      (conn.authFailCount ≤ 10 → handled.conn.authFailCount ≤ 10)

lemma ConnectionState.refused_counts {reason : String} {slotName : Option String} :
    Handled.Counts (ConnectionState.sendConnectionRefused { conn with slotName } reason w) conn 1 := by
  rw [sendConnectionRefused]
  split
  · simp only
    split
    · exact .inl rfl
    · rename_i few
      exact .inr ⟨le_rfl, fun _ => Nat.le_of_not_lt few⟩
  · exact .inl rfl

lemma ConnectionState.refused_conn (conn : ConnectionState) (reason : String) (w : World) :
    (conn.sendConnectionRefused reason w).conn.registeredClient = conn.registeredClient ∧
      (conn.sendConnectionRefused reason w).conn.reduced = conn.reduced := by
  rw [sendConnectionRefused]
  split
  · simp only
    split <;> exact ⟨rfl, rfl⟩
  · exact ⟨rfl, rfl⟩

/-- What a Connect comes to for a client that isn't in. -/
inductive Connecting (s : Room) (conn : ConnectionState) (raw : Option ConnectMessage) (w : World) (h : Handled) : Prop
  | unread : raw = none → h.conn = conn → h.sent.filterMap Sent.toServer = [] → Connecting s conn raw w h
  | refused (msg : ConnectMessage) : raw = some msg → s.refuses conn.reduced msg = true →
    h.conn.registeredClient = none → h.conn.reduced = conn.reduced → h.sent.filterMap Sent.toServer = [] →
    h.Counts conn 1 → Connecting s conn raw w h
  | failed (msg m : ConnectMessage) : raw = some msg → s.refuses conn.reduced msg = false → s.LetsIn conn.reduced msg m →
    h.conn.registeredClient = none → h.conn.reduced = conn.reduced →
    (h.sent.filterMap Sent.toServer = [] ∨ h.sent.filterMap Sent.toServer = [.connect m]) →
    h.Counts conn 0 → Connecting s conn raw w h
  | joined (msg m : ConnectMessage) : raw = some msg → s.refuses conn.reduced msg = false → s.LetsIn conn.reduced msg m →
    h.conn.registeredClient.isSome → h.conn.reduced = conn.reduced → h.conn.slotName = some m.name →
    h.sent.filterMap Sent.toServer = [.connect m] → w.clientWritable = true → Connecting s conn raw w h

lemma Room.toServer_connectAP (s : Room) (reduced : Bool) (msg : ConnectMessage) (w : World) :
    let m := { msg with
      password := if s.lobbyEnabled then s.roomPassword else msg.password
      reducedTraffic := reduced }
    (∃ error, (s.connectAP reduced msg w).1 = .failed error ∧
      ((s.connectAP reduced msg w).2.filterMap Sent.toServer = [] ∨
        (s.connectAP reduced msg w).2.filterMap Sent.toServer = [.connect m])) ∨
    (s.connectAP reduced msg w).2.filterMap Sent.toServer = [.connect m] ∧ w.clientWritable = true ∧
      ((s.connectAP reduced msg w).1 = .refused ∨
        ∃ slotId game, (s.connectAP reduced msg w).1 = .connected slotId game) := by
  have same : (if s.lobbyEnabled then
      if s.hasPassword then { msg with password := some s.apPassword } else { msg with password := none }
    else msg) = { msg with password := if s.lobbyEnabled then s.roomPassword else msg.password } := by
    rw [Room.roomPassword]
    split
    · split <;> rfl
    · rfl
  rw [Room.connectAP, same]
  cases server : w.server with
  | undialed => exact .inl ⟨_, rfl, .inl rfl⟩
  | silent => exact .inl ⟨_, rfl, .inl rfl⟩
  | deaf => exact .inl ⟨_, rfl, .inl rfl⟩
  | mute => exact .inl ⟨_, rfl, .inr rfl⟩
  | answered response =>
    simp only
    split
    case isTrue => exact .inl ⟨_, rfl, .inr rfl⟩
    case isFalse writable =>
      rw [Bool.not_eq_true', Bool.not_eq_false] at writable
      split
      case h_1 => exact .inr ⟨rfl, writable, .inl rfl⟩
      case h_2 slotId game _ => exact .inr ⟨rfl, writable, .inr ⟨slotId, game, rfl⟩⟩

/-- The server hears the same whether or not data packages were asked for before. -/
lemma toServer_packages (games : List String) (sent : List Sent) :
    ((if games = [] then [] else [Sent.dataPackages games]) ++ sent).filterMap Sent.toServer =
      sent.filterMap Sent.toServer := by
  split <;> rfl

lemma closes_packages (games : List String) (sent : List Sent) :
    ((if games = [] then [] else [Sent.dataPackages games]) ++ sent).any Sent.closes = sent.any Sent.closes := by
  split <;> rfl

/-- A Connect that isn't refused is let in. -/
lemma Room.letsIn_of_slot {msg : ConnectMessage} {team slotKey : ℤ}
    (slot : s.validateSlot (s.resolveAltName msg.name) = some (team, slotKey))
    (passes : s.refuses reduced msg = false) :
    s.LetsIn reduced msg { s.rewrite reduced msg with
      password := if s.lobbyEnabled then s.roomPassword else msg.password } := by
  rw [Room.refuses, slot] at passes
  simp only [Bool.or_eq_false_iff, Bool.and_eq_false_iff, Bool.not_eq_false'] at passes
  refine ⟨⟨team, slotKey, slot, ⟨fun perSlot => ?_, fun full => ?_⟩⟩, rfl⟩
  · exact passes.1.resolve_left (by simp [perSlot])
  · exact passes.2.resolve_left (by simp [full])

lemma Room.handleConnect_connecting (outside : conn.registeredClient = none) (raw : Option ConnectMessage) :
    Connecting s conn raw w (s.handleConnect conn raw w) := by
  cases raw with
  | none =>
    refine .unread rfl ?_ ConnectionState.toServer_invalid
    rw [Room.handleConnect, ConnectionState.sendInvalidPacket]
    split <;> rfl
  | some msg =>
    rw [Room.handleConnect]
    simp only [Room.getD_altConnectNames]
    cases slot : s.validateSlot (s.resolveAltName msg.name) with
    | none =>
      obtain ⟨client, feed⟩ := ConnectionState.refused_conn
        { conn with slotName := some (s.resolveAltName msg.name) } "InvalidSlot" w
      refine .refused msg rfl ?_ (client.trans outside) feed ConnectionState.toServer_refused
        ConnectionState.refused_counts
      rw [Room.refuses, slot]
    | some entry =>
      obtain ⟨team, slotKey⟩ := entry
      simp only
      split
      case isTrue wrong =>
        obtain ⟨client, feed⟩ := ConnectionState.refused_conn
          { conn with slotName := some (s.resolveAltName msg.name) } "InvalidPassword" w
        refine .refused msg rfl ?_ (client.trans outside) feed ConnectionState.toServer_refused
          ConnectionState.refused_counts
        rw [Room.refuses, slot]
        simp [wrong]
      case isFalse right =>
        split
        case isTrue wrong =>
          obtain ⟨client, feed⟩ := ConnectionState.refused_conn
            { conn with slotName := some (s.resolveAltName msg.name) } "FullFeedDenial" w
          refine .refused msg rfl ?_ (client.trans outside) feed ConnectionState.toServer_refused
            ConnectionState.refused_counts
          rw [Room.refuses, slot]
          simp [wrong]
        case isFalse allowed =>
          have passes : s.refuses conn.reduced msg = false := by
            rw [Room.refuses, slot]
            simp [right, allowed]
          have ap := s.toServer_connectAP conn.reduced
            { msg with slotData := some (msg.slotData.getD true), name := s.resolveAltName msg.name } w
          have letsIn := Room.letsIn_of_slot slot passes
          cases joined : s.connectAP conn.reduced
            { msg with slotData := some (msg.slotData.getD true), name := s.resolveAltName msg.name } w with
          | mk result sent =>
            rw [joined] at ap
            simp only at ap ⊢
            rcases ap with ⟨error, rfl, toServer⟩ | ⟨toServer, writable, rfl | ⟨slotId, game, rfl⟩⟩
            · refine .failed msg _ rfl passes letsIn outside rfl ?_ (.inr ⟨le_rfl, id⟩)
              rw [toServer_packages]
              exact toServer
            · simp only
              split
              · refine .failed msg _ rfl passes letsIn outside rfl (.inr ?_) (.inl ?_)
                · rw [List.append_assoc, toServer_packages, List.filterMap_append, toServer]
                  rfl
                · rw [List.append_assoc, closes_packages, List.any_append]
                  exact Bool.or_true _
              · rename_i few
                refine .failed msg _ rfl passes letsIn outside rfl (.inr ?_) (.inr ⟨Nat.le_succ _, fun _ => ?_⟩)
                · rw [toServer_packages]
                  exact toServer
                · exact Nat.le_of_not_lt few
            · refine .joined msg _ rfl passes letsIn rfl rfl rfl ?_ writable
              rw [toServer_packages]
              exact toServer

end

/-! ## A client that is in -/

section
variable {A : Type}

@[simp] lemma extendLast_nil (logs : List (List A)) : extendLast logs [] = logs := by
  induction logs with
  | nil => rfl
  | cons log rest ih =>
    cases rest with
    | nil => rw [extendLast, List.append_nil]
    | cons next rest =>
      show log :: extendLast (next :: rest) [] = _
      rw [ih]

lemma extendLast_concat (logs : List (List A)) (log more : List A) :
    extendLast (logs ++ [log]) more = logs ++ [log ++ more] := by
  induction logs with
  | nil => rfl
  | cons first rest ih =>
    cases rest with
    | nil => rfl
    | cons next rest =>
      show first :: extendLast (next :: rest ++ [log]) more = _
      rw [ih]
      rfl

end

namespace Session

variable {st : Session} {s : RelayRoom} {w : World} {slotName : String} {client : Client}

lemma tell_same (st : Session) (w : World) (message : ToClient) :
    (st.tell w message).conn = st.conn ∧ (st.tell w message).upstream = st.upstream ∧
      (st.tell w message).ended = st.ended := by
  rw [tell]
  split <;> exact ⟨rfl, rfl, rfl⟩

lemma send_eq (st : Session) (w : World) (message : ToServer) :
    (st.send w message).conn = st.conn ∧ (st.send w message).ended = st.ended ∧
      (st.send w message).upstream =
        extendLast st.upstream (if w.serverWritable then some message else none).toList := by
  rw [send]
  split
  · exact ⟨rfl, rfl, rfl⟩
  · exact ⟨rfl, rfl, (extendLast_nil _).symm⟩

/-- A text is a command of the room just if the room answers it. -/
lemma handleSay_passes (s : RelayRoom) (client : Client) (text : Option String) (raw slotName : String) (reduced : Bool) :
    (st.handleSay s client text raw w).conn = st.conn ∧ (st.handleSay s client text raw w).ended = st.ended ∧
      (st.handleSay s client text raw w).upstream = extendLast st.upstream
        (if w.serverWritable then passOn s reduced slotName (.say text raw) else none).toList := by
  cases text with
  | none =>
    obtain ⟨conn, upstream, ended⟩ := st.tell_same w (.sent (.invalidPacket "Say"))
    refine ⟨conn, ended, upstream.trans ?_⟩
    simp [passOn]
  | some text =>
    rw [handleSay]
    simp only
    by_cases empty : text = ""
    · obtain ⟨conn, upstream, ended⟩ := st.tell_same w (.sent (.invalidPacket "Say"))
      rw [if_pos empty]
      refine ⟨conn, ended, upstream.trans ?_⟩
      simp [passOn, empty]
    · rw [if_neg empty]
      split
      case isTrue countdown =>
        obtain ⟨conn, upstream, ended⟩ := st.tell_same w (.chat client.slotId "You're not allowed to do this")
        refine ⟨conn, ended, upstream.trans ?_⟩
        simp only [passOn, RelayRoom.isCommand, List.any_cons, countdown, Bool.true_or, Bool.or_true, if_true]
        simp
      case isFalse noCountdown =>
      split
      case isTrue players =>
        obtain ⟨conn, upstream, ended⟩ := st.tell_same w (.chat client.slotId "You're not allowed to do this")
        refine ⟨conn, ended, upstream.trans ?_⟩
        simp only [passOn, RelayRoom.isCommand, List.any_cons, players, Bool.true_or, Bool.or_true, if_true]
        simp
      case isFalse noPlayers =>
        have lead : '!' :: (s.apxCommandGroup client).lead.toList = "!apx".toList := by
          show '!' :: "apx".toList = "!apx".toList
          decide
        rw [ChatCommandGroup.handle, lead]
        simp only
        by_cases apx : "!apx".toList.isPrefixOf ((trimmed isSpace text.toList).map s.toLower) = true
        · rw [if_pos apx]
          have none : passOn s reduced slotName (.say (some text) raw) = none := by
            simp only [passOn, RelayRoom.isCommand, List.any_cons, apx, Bool.true_or, Bool.or_true, if_true]
          rw [none, ite_self, Option.toList_none, extendLast_nil]
          split
          case h_1 answer _ =>
            obtain ⟨conn, upstream, ended⟩ := st.tell_same w (.chat client.slotId answer)
            exact ⟨conn, ended, upstream⟩
          case h_2 noAnswer =>
            split at noAnswer <;> cases noAnswer
        · have passes : passOn s reduced slotName (.say (some text) raw) = some (.raw raw) := by
            have noCommand : s.isCommand text = false := by
              rw [RelayRoom.isCommand]
              simp only [List.any_cons, List.any_nil, eq_false_of_ne_true noCountdown, eq_false_of_ne_true noPlayers,
                eq_false_of_ne_true apx, Bool.or_self]
            simp [passOn, empty, noCommand]
          rw [if_neg apx, passes]
          exact st.send_eq w (.raw raw)

/-- A Connect or ConnectUpdate of a client that is in. -/
lemma receivePacket_inside (inside : st.conn.registeredClient = some client) (named : st.conn.slotName = some slotName)
    (packet : Packet) :
    (st.receivePacket s.toRoom packet w).conn = st.conn ∧
      (st.receivePacket s.toRoom packet w).upstream = extendLast st.upstream
        (if w.serverWritable then passOn s st.conn.reduced slotName (.packet packet) else none).toList := by
  have upstream : (st.receivePacket s.toRoom packet w).upstream =
      extendLast st.upstream ((s.toRoom.handleMessage st.conn packet w).sent.filterMap Sent.toServer) := by
    rw [receivePacket, inside]
  have conn : (st.receivePacket s.toRoom packet w).conn = (s.toRoom.handleMessage st.conn packet w).conn := rfl
  rw [upstream, conn]
  cases packet with
  | connect raw =>
    rw [Room.handleMessage, inside]
    simp only
    cases raw with
    | none =>
      rw [Room.handleAuthedConnect, ConnectionState.toServer_invalid, ConnectionState.sendInvalidPacket]
      refine ⟨?_, by simp [passOn]⟩
      split <;> rfl
    | some msg =>
      rw [Room.handleAuthedConnect, named]
      simp only [Option.any_some]
      by_cases same : s.resolveAltName msg.name = slotName
      · rw [if_neg (by simp [same])]
        have passes : passOn s st.conn.reduced slotName (.packet (.connect (some msg))) =
            some (.connect (s.toRoom.rewrite st.conn.reduced msg)) := if_pos same
        rw [passes]
        cases w.serverWritable with
        | true => exact ⟨rfl, rfl⟩
        | false => exact ⟨rfl, rfl⟩
      · rw [if_pos (by simpa using Ne.symm same)]
        have none : passOn s st.conn.reduced slotName (.packet (.connect (some msg))) = none := if_neg same
        rw [none, ite_self]
        exact ⟨rfl, rfl⟩
  | connectUpdate raw =>
    rw [Room.handleMessage, inside]
    simp only
    cases raw with
    | none =>
      rw [handleConnectUpdate, ConnectionState.toServer_invalid, ConnectionState.sendInvalidPacket]
      refine ⟨?_, by simp [passOn]⟩
      split <;> rfl
    | some msg =>
      rw [handleConnectUpdate]
      cases w.serverWritable with
      | true => exact ⟨rfl, rfl⟩
      | false => exact ⟨rfl, rfl⟩

/-- Of each message of a client that is in, the server hears what is to be passed on. -/
lemma handleMessage_inside (inside : st.conn.registeredClient = some client) (named : st.conn.slotName = some slotName)
    (message : Message) :
    (st.handleMessage s message w).conn = st.conn ∧
      (st.handleMessage s message w).upstream = extendLast st.upstream
        (if w.serverWritable then passOn s st.conn.reduced slotName message else none).toList := by
  cases message with
  | noCmd =>
    obtain ⟨conn, upstream, _⟩ := st.tell_same w .invalidCmd
    exact ⟨conn, upstream.trans (by simp [passOn])⟩
  | getDataPackage games =>
    rw [handleMessage]
    split
    case h_1 text _ =>
      obtain ⟨conn, upstream, _⟩ := st.tell_same w (.dataPackage text)
      exact ⟨conn, upstream.trans (by simp [passOn])⟩
    case h_2 => exact ⟨rfl, by simp [passOn]⟩
  | bounce raw => exact ⟨rfl, by simp [handleMessage, passOn]⟩
  | packet packet => exact receivePacket_inside inside named packet
  | say text raw =>
    rw [handleMessage, inside]
    obtain ⟨conn, _, upstream⟩ := st.handleSay_passes (w := w) s client text raw slotName st.conn.reduced
    exact ⟨conn, upstream⟩
  | other raw =>
    rw [handleMessage, inside]
    obtain ⟨conn, _, upstream⟩ := st.send_eq w (.raw raw)
    exact ⟨conn, upstream⟩

lemma Inside.receive {reduced : Bool} {before later : List Step} {entry : Step} {m : ConnectMessage}
    (inside : st.Inside reduced before entry later m) (step : Step) :
    (st.receive step).Inside reduced before entry (later ++ [{ step with world := st.worldOf step.world }]) m := by
  obtain ⟨client, isClient⟩ := Option.isSome_iff_exists.mp inside.client
  obtain ⟨conn, upstream⟩ := handleMessage_inside (s := step.room) (w := st.worldOf step.world) isClient inside.name
    step.message
  have conn : (st.receive step).conn = st.conn := conn
  obtain ⟨logs, onlyConnect, isUpstream⟩ := inside.logs
  refine ⟨by rw [conn, inside.feed], by rw [conn, inside.client], by rw [conn, inside.name], ?_, inside.entry,
    inside.refusals, logs, onlyConnect, ?_⟩
  · show st.handled ++ _ = _
    rw [inside.handled, List.append_assoc, List.cons_append]
  · have upstream : (st.receive step).upstream = _ := upstream
    rw [upstream, isUpstream, extendLast_concat, inside.feed, List.filterMap_append]
    show _ = logs ++ [.connect m :: (_ ++ List.filterMap _ [_])]
    rw [← List.cons_append]
    congr 3

lemma OnlyConnect.mono {reduced : Bool} {steps steps' : List Step} {log : List ToServer}
    (only : OnlyConnect reduced steps log) (sub : steps ⊆ steps') : OnlyConnect reduced steps' log := by
  obtain ⟨step, mem, m, opens, isLog⟩ := only
  exact ⟨step, sub mem, m, opens, isLog⟩

/-- A message that changes neither the connection nor what the server hears. -/
lemma Outside.same {reduced : Bool} {st' : Session} {step : Step} (out : st.Outside reduced) (conn : st'.conn = st.conn)
    (upstream : st'.upstream = st.upstream) (ended : st'.ended = false → st.ended = false)
    (handled : st'.handled = st.handled ++ [step]) (fine : step.refused reduced = false) : st'.Outside reduced := by
  refine ⟨by rw [conn, out.feed], by rw [conn, out.client], ?_, fun goesOn => ?_⟩
  · rw [upstream, handled]
    exact fun log mem => OnlyConnect.mono (out.logs log mem) (List.subset_append_left _ _)
  · obtain ⟨few, bound⟩ := out.refusals (ended goesOn)
    rw [conn, handled, List.countP_append, List.countP_singleton, fine]
    exact ⟨few, bound⟩

lemma receive_connect {step : Step} {raw : Option ConnectMessage} (outside : st.conn.registeredClient = none)
    (isConnect : step.message = .packet (.connect raw)) :
    let connected := step.room.toRoom.handleConnect st.conn raw (st.worldOf step.world)
    (st.receive step).conn = connected.conn ∧
      (st.receive step).upstream =
        st.upstream ++ (connected.sent.filterMap Sent.toServer).map (fun message => [message]) ∧
      (st.receive step).ended = (st.ended || connected.sent.any Sent.closes) ∧
      (st.receive step).handled = st.handled ++ [{ step with world := st.worldOf step.world }] := by
  have same : step.room.toRoom.handleMessage st.conn (.connect raw) (st.worldOf step.world) =
      step.room.toRoom.handleConnect st.conn raw (st.worldOf step.world) := by
    rw [Room.handleMessage, outside]
  have received : st.receive step =
      { st.receivePacket step.room.toRoom (.connect raw) (st.worldOf step.world) with
        handled := st.handled ++ [{ step with world := st.worldOf step.world }] } := by
    rw [receive, isConnect]
    rfl
  simp only [received, receivePacket, outside, same, and_self]

/-- A Connect of a client that isn't in leaves it outside, or lets it in. -/
lemma Outside.connect {reduced : Bool} (out : st.Outside reduced) {step : Step} {raw : Option ConnectMessage}
    (isConnect : step.message = .packet (.connect raw)) :
    (st.receive step).Outside reduced ∨
      ∃ m, (st.receive step).Inside reduced st.handled { step with world := st.worldOf step.world } [] m := by
  have connecting := Room.handleConnect_connecting (s := step.room.toRoom) (w := st.worldOf step.world) out.client raw
  obtain ⟨conn, upstream, ended, handled⟩ := receive_connect out.client isConnect
  have counted {failures : ℕ}
      (counts : (step.room.toRoom.handleConnect st.conn raw (st.worldOf step.world)).Counts st.conn failures)
      (goesOn : (st.receive step).ended = false) :
      st.handled.countP (·.refused reduced) + failures ≤ (st.receive step).conn.authFailCount ∧
        (st.receive step).conn.authFailCount ≤ 10 := by
    rw [ended, Bool.or_eq_false_iff] at goesOn
    obtain ⟨few, bound⟩ := out.refusals goesOn.1
    rcases counts with closes | ⟨more, bound'⟩
    · rw [goesOn.2] at closes
      cases closes
    · rw [conn]
      exact ⟨(Nat.add_le_add_right few failures).trans more, bound' bound⟩
  cases connecting with
  | unread isNone sameConn toServer =>
    left
    refine out.same (conn.trans sameConn) ?_ ?_ handled ?_
    · rw [upstream, toServer, List.map_nil, List.append_nil]
    · intro goesOn
      rw [ended, Bool.or_eq_false_iff] at goesOn
      exact goesOn.1
    · simp [Step.refused, isConnect, isNone]
  | refused msg isSome refuses client feed toServer counts =>
    left
    refine ⟨by rw [conn, feed, out.feed], by rw [conn, client], ?_, fun goesOn => ?_⟩
    · rw [upstream, toServer, List.map_nil, List.append_nil, handled]
      exact fun log mem => OnlyConnect.mono (out.logs log mem) (List.subset_append_left _ _)
    · have isRefused : Step.refused reduced { step with world := st.worldOf step.world } = true := by
        rw [out.feed] at refuses
        simp [Step.refused, isConnect, isSome, refuses]
      rw [handled, List.countP_append, List.countP_singleton, isRefused]
      exact counted counts goesOn
  | failed msg m isSome passes letsIn client feed toServer counts =>
    left
    rw [out.feed] at letsIn passes
    refine ⟨by rw [conn, feed, out.feed], by rw [conn, client], ?_, fun goesOn => ?_⟩
    · rw [upstream, handled]
      intro log mem
      rcases List.mem_append.mp mem with mem | mem
      · exact OnlyConnect.mono (out.logs log mem) (List.subset_append_left _ _)
      · rcases toServer with nothing | one
        · rw [nothing] at mem
          cases mem
        · rw [one] at mem
          refine ⟨_, List.mem_append_right _ (List.mem_singleton_self _), m, ⟨msg, ?_, letsIn⟩, ?_⟩
          · rw [isConnect, isSome]
          · exact List.mem_singleton.mp mem
    · have notRefused : Step.refused reduced { step with world := st.worldOf step.world } = false := by
        simp [Step.refused, isConnect, isSome, passes]
      rw [handled, List.countP_append, List.countP_singleton, notRefused]
      exact counted counts goesOn
  | joined msg m isSome passes letsIn client feed name toServer writable =>
    right
    rw [out.feed] at letsIn
    have goesOn : st.ended = false := by
      have both : (step.world.clientWritable && !st.ended) = true := writable
      rw [Bool.and_eq_true, Bool.not_eq_true'] at both
      exact both.2
    obtain ⟨few, bound⟩ := out.refusals goesOn
    refine ⟨m, by rw [conn, feed, out.feed], by rw [conn, client], by rw [conn, name], handled, ⟨msg, ?_, letsIn⟩,
      few.trans bound, st.upstream, out.logs, ?_⟩
    · rw [isConnect, isSome]
    · rw [upstream, toServer]
      rfl

lemma Outside.receive {reduced : Bool} (out : st.Outside reduced) (step : Step) :
    (st.receive step).Outside reduced ∨
      ∃ m, (st.receive step).Inside reduced st.handled { step with world := st.worldOf step.world } [] m := by
  obtain ⟨room, message, world⟩ := step
  cases message with
  | packet packet =>
    cases packet with
    | connect raw => exact out.connect rfl
    | connectUpdate raw =>
      have same : room.toRoom.handleMessage st.conn (.connectUpdate raw) (st.worldOf world) = ⟨st.conn, none, [], none⟩ := by
        rw [Room.handleMessage, out.client]
      have received : st.receive ⟨room, .packet (.connectUpdate raw), world⟩ =
          { st.receivePacket room.toRoom (.connectUpdate raw) (st.worldOf world) with
            handled := st.handled ++ [⟨room, .packet (.connectUpdate raw), st.worldOf world⟩] } := rfl
      refine .inl (out.same ?_ ?_ ?_ rfl rfl)
      · rw [received, receivePacket, same]
      · rw [received, receivePacket, same, out.client]
        exact List.append_nil _
      · rw [received, receivePacket, same]
        exact fun goesOn => (Bool.or_eq_false_iff.mp goesOn).1
  | noCmd =>
    obtain ⟨conn, upstream, ended⟩ := st.tell_same (st.worldOf world) .invalidCmd
    exact .inl (out.same conn upstream (fun goesOn => ended.symm.trans goesOn) rfl rfl)
  | getDataPackage games =>
    left
    cases answer : room.dataPackages.handleGetDataPackage room.checksums games with
    | ok text =>
      obtain ⟨conn, upstream, ended⟩ := st.tell_same (st.worldOf world) (.dataPackage text)
      have same : st.handleMessage room (.getDataPackage games) (st.worldOf world) =
          st.tell (st.worldOf world) (.dataPackage text) := by
        rw [handleMessage, answer]
      refine out.same ?_ ?_ ?_ rfl rfl
      · rw [Session.receive, same, conn]
      · rw [Session.receive, same, upstream]
      · rw [Session.receive, same]
        exact fun goesOn => ended.symm.trans goesOn
    | error e =>
      have same : st.handleMessage room (.getDataPackage games) (st.worldOf world) = st := by
        rw [handleMessage, answer]
      refine out.same ?_ ?_ ?_ rfl rfl
      · rw [Session.receive, same]
      · rw [Session.receive, same]
      · rw [Session.receive, same]
        exact id
  | bounce raw => exact .inl (out.same rfl rfl id rfl rfl)
  | say text raw =>
    have same : st.handleMessage room (.say text raw) (st.worldOf world) = st := by rw [handleMessage, out.client]
    refine .inl (out.same ?_ ?_ ?_ rfl rfl)
    · rw [Session.receive, same]
    · rw [Session.receive, same]
    · rw [Session.receive, same]
      exact id
  | other raw =>
    have same : st.handleMessage room (.other raw) (st.worldOf world) = st := by rw [handleMessage, out.client]
    refine .inl (out.same ?_ ?_ ?_ rfl rfl)
    · rw [Session.receive, same]
    · rw [Session.receive, same]
    · rw [Session.receive, same]
      exact id

/-- The client is outside, or it is in. -/
def Settled (reduced : Bool) (st : Session) : Prop :=
  st.Outside reduced ∨ ∃ before entry later m, st.Inside reduced before entry later m

lemma Settled.receive {reduced : Bool} (settled : st.Settled reduced) (step : Step) : (st.receive step).Settled reduced := by
  rcases settled with out | ⟨before, entry, later, m, inside⟩
  · rcases out.receive step with out' | ⟨m, inside⟩
    · exact .inl out'
    · exact .inr ⟨_, _, _, m, inside⟩
  · exact .inr ⟨before, entry, _, m, inside.receive step⟩

/-- Only frames of the client change what the server hears. -/
lemma Settled.told {reduced : Bool} {st' : Session} (settled : st.Settled reduced) (conn : st'.conn = st.conn)
    (upstream : st'.upstream = st.upstream) (handled : st'.handled = st.handled)
    (ended : st'.ended = false → st.ended = false) : st'.Settled reduced := by
  rcases settled with out | ⟨before, entry, later, m, inside⟩
  · refine .inl ⟨by rw [conn, out.feed], by rw [conn, out.client], ?_, fun goesOn => ?_⟩
    · rw [upstream, handled]
      exact out.logs
    · rw [conn, handled]
      exact out.refusals (ended goesOn)
  · refine .inr ⟨before, entry, later, m, ?_⟩
    refine ⟨by rw [conn, inside.feed], by rw [conn, inside.client], by rw [conn, inside.name],
      by rw [handled, inside.handled], inside.entry, inside.refusals, ?_⟩
    rw [upstream]
    exact inside.logs

lemma Settled.step {reduced : Bool} (settled : st.Settled reduced) (event : Event) : (st.step event).Settled reduced := by
  cases event with
  | frame messages =>
    unfold Session.step
    simp only
    split
    · exact settled
    · cases messages with
      | none => exact settled
      | some messages =>
        simp only
        clear * - settled
        induction messages generalizing st with
        | nil => exact settled
        | cons step rest ih => exact ih (settled.receive step)
  | server data written =>
    rw [Session.step]
    split
    · exact settled
    · split
      · exact settled.told rfl rfl rfl id
      · exact settled.told rfl rfl rfl fun goesOn => by cases goesOn
  | gone => exact settled.told rfl rfl rfl fun goesOn => by cases goesOn

end Session

/-- What the server hears of a client, whatever the client sends and whenever writes fail: each connection that was
opened for it got one Connect that the room let through; only the one that the server let in got more, and that is, in
order, what is to be passed on of each later message that the server took. No more than ten refused Connects came
before. -/
theorem server_hears (reduced : Bool) (events : List Session.Event) : (Session.after reduced events).Settled reduced := by
  have start : (Session.opened reduced).Settled reduced :=
    .inl ⟨rfl, rfl, fun log mem => absurd mem List.not_mem_nil, fun _ => ⟨Nat.le_refl 0, Nat.zero_le 10⟩⟩
  unfold Session.after
  generalize Session.opened reduced = st at start
  induction events generalizing st with
  | nil => exact start
  | cons event rest ih => exact ih (st.step event) (start.step event)

end ArchipelagoXL.Apx.Auth
