import ArchipelagoXL.Lib.OrdMap
import ArchipelagoXL.Apx.Registry
import ArchipelagoXL.Apx.Rooms

/-!
# Bounced packets

Players of a room send each other Bounce packets, which go to the clients with one of their tags, games or
slots (`apx/bounce.go`, `apx/server.go`). A slot may be limited to its own clients, and it may be excluded
from a tag. Packets with the tag DeathLink have a way of their own: they are checked, counted, dropped with
some probability, and there is one cooldown for the whole room.

Isolation and exclusion are applied last, when the packet is sent. A DeathLink of an isolated slot has
then already taken the cooldown, and the DeathLinks of the other slots are dropped for it. That is the only
way in which such a slot can be felt: it cannot exactly if none of its packets takes the cooldown
(`slots_are_felt_by_cooldown`).

Times are in nanoseconds. Settings and connections may change between packets in any way. The counters
for metrics and the stored counts of deaths are left out.
-/

namespace ArchipelagoXL.Apx

/-! ## Packets -/

/-- A decoded JSON value. -/
inductive Json where
  | null
  | bool (b : Bool)
  | num (q : ℚ)
  | str (s : String)
  | arr (l : List Json)
  | obj (fields : List (String × Json))

/-- Go `BounceMessage`. -/
structure BounceMessage where
  cmd : String
  games : Option (List String)
  slots : Option (List ℤ)
  tags : Option (List String)
  data : Option (BTreeMap String Json)

/-- Go `BounceDataDeathlink`. -/
structure BounceDataDeathlink where
  time : ℚ
  source : Option String
  cause : Option String

/-- A packet as a connection handles it: the client that sent it, the name of its slot, the message if it
could be decoded, the time, and the number that is drawn. -/
structure BouncePacket where
  client : Client
  slotName : String
  msg : Option BounceMessage
  now : ℤ
  draw : ℚ

/-- A message that is sent to a client for a packet. -/
structure Delivery where
  packet : BouncePacket
  client : Client
  msg : BounceMessage

/-- The names that a field is found by do not depend on case; a long s counts as an s. -/
def foldName (key : String) : String :=
  String.ofList (key.toList.map fun c => if c = 'ſ' then 's' else c.toLower)

/-- One entry of an object, decoded into the fields of a DeathLink; false once a type was wrong. -/
def BounceDataDeathlink.decodeField (acc : BounceDataDeathlink × Bool) (e : String × Json) :
    BounceDataDeathlink × Bool :=
  match foldName e.1, e.2 with
  | "time", .num q => ({ acc.1 with time := q }, acc.2)
  | "time", .null => acc
  | "time", _ => (acc.1, false)
  | "source", .str s => ({ acc.1 with source := some s }, acc.2)
  | "source", .null => ({ acc.1 with source := none }, acc.2)
  | "source", _ => (acc.1, false)
  | "cause", .str s => ({ acc.1 with cause := some s }, acc.2)
  | "cause", .null => ({ acc.1 with cause := none }, acc.2)
  | "cause", _ => (acc.1, false)
  | _, _ => acc

/-- Go `json.Unmarshal` of the encoded data; the entries come in the order of their keys. -/
def BounceDataDeathlink.decode (data : BTreeMap String Json) : Option BounceDataDeathlink :=
  let r := data.toList.foldl BounceDataDeathlink.decodeField (⟨0, none, none⟩, true)
  if r.2 then some r.1 else none

/-- The patched data put back onto that of the packet, which keeps its other entries. -/
def BounceDataDeathlink.patch (dl : BounceDataDeathlink) (data : BTreeMap String Json) :
    BTreeMap String Json :=
  let data := data.insert "time" (.num dl.time)
  let data := data.insert "source" ((dl.source.map Json.str).getD .null)
  match dl.cause with
  | none => data
  | some cause => data.insert "cause" (.str cause)

/-- The checks of `handleDeathLink`: the data and what it says, with a source. An error may be silent; of
an error in decoding the text of the decoder is left out. -/
def checkDeathLink (slotName : String) (msg : BounceMessage) :
    Except (Option String) (BTreeMap String Json × BounceDataDeathlink) :=
  match msg.tags, msg.data with
  | none, _ => .error (some "handleDeathLink called with a bounce packet without tags!")
  | some _, none => .error (some "deathlink packet missing data field")
  | some _, some data =>
    match BounceDataDeathlink.decode data with
    | none => .error (some "unmarshalling deathlink data")
    | some dl =>
      if dl.time = 0 then .error none
      else
        match dl.source with
        | none => .error (some "deathlink packet did not contain a source field")
        | some source =>
          .ok (data, { dl with source := some (if source = "" then slotName else source) })

/-- A message with the tag DeathLink. -/
def BounceMessage.isDeathLink (msg : BounceMessage) : Bool := (msg.tags.getD []).contains "DeathLink"

/-! ## Handling -/

/-- What a room knows when it handles packets: the settings, the cooldown and the connections. -/
structure BounceRoom where
  info : BounceInfo
  lastDeathlink : ℤ
  connections : Registry

/-- Go `deathlinkThrottle`. -/
def deathlinkThrottle : ℤ := 2000000000

/-- Go `CanSendDeathlink`. -/
def BounceRoom.canSendDeathlink (room : BounceRoom) (now : ℤ) : BounceRoom × Bool :=
  if now - room.lastDeathlink < deathlinkThrottle then (room, false)
  else ({ room with lastDeathlink := now }, true)

/-- The local function `addTarget`, over the targets and the clients seen so far. -/
def addTarget (mine allowed : Client → Bool) (acc : List Client × List Client) (c : Client) :
    List Client × List Client :=
  if !mine c then acc
  else if c ∈ acc.2 then acc
  else if allowed c then (acc.1 ++ [c], acc.2 ++ [c])
  else (acc.1, acc.2 ++ [c])

/-- The clients that are filed under the tags, games and slots of a message, as the loops meet them. -/
def Registry.addressed (r : Registry) (msg : BounceMessage) : List Client :=
  (msg.tags.getD []).flatMap r.clientsByTag.get ++ (msg.games.getD []).flatMap r.clientsByGame.get ++
    (msg.slots.getD []).flatMap r.clients.get

/-- The message as it is sent. -/
def BounceMessage.bounced (msg : BounceMessage) : BounceMessage := { msg with cmd := "Bounced" }

/-- The part that the two broadcasts share. -/
def BounceRoom.broadcastTo (room : BounceRoom) (p : BouncePacket) (msg : BounceMessage)
    (mine allowed : Client → Bool) : List Delivery :=
  ((room.connections.addressed msg).foldl (addTarget mine allowed) ([], [])).1.map fun c =>
    ⟨p, c, msg.bounced⟩

/-- Go `broadcastBounceToSlot`. -/
def BounceRoom.broadcastBounceToSlot (room : BounceRoom) (p : BouncePacket) (msg : BounceMessage) :
    List Delivery :=
  room.broadcastTo p msg (fun c => decide (c.slotId = p.client.slotId)) fun _ => true

/-- Go `broadcastBounce`. -/
def BounceRoom.broadcastBounce (room : BounceRoom) (p : BouncePacket) (msg : BounceMessage) :
    List Delivery :=
  room.broadcastTo p msg (fun c => !decide (c.slotId = p.client.slotId)) fun c =>
    !decide (c.slotId ∈ room.info.ownSlotOnly)

/-- The tags that a slot may send. -/
def BounceRoom.stripTags (room : BounceRoom) (slot : ℤ) (msg : BounceMessage) : BounceMessage :=
  { msg with tags := msg.tags.map fun tags =>
      tags.filter fun tag => !decide ((slot, tag) ∈ room.info.excludedByTag) }

/-- Go `BroadcastBounceFromSlot`. -/
def BounceRoom.broadcastBounceFromSlot (room : BounceRoom) (p : BouncePacket) (msg : BounceMessage) :
    List Delivery :=
  let own := room.broadcastBounceToSlot p msg
  if p.client.slotId ∈ room.info.ownSlotOnly then own
  else own ++ room.broadcastBounce p (room.stripTags p.client.slotId msg)

/-- What handling a packet leads to: the room, what is sent, and perhaps an error. -/
structure Handled where
  room : BounceRoom
  sent : List Delivery
  err : Option String

/-- A DeathLink that has passed its checks gets through the draw. -/
def BounceInfo.passes (b : BounceInfo) (draw : ℚ) : Bool :=
  !(!decide (b.deathlinkProbability = 1) && decide (b.deathlinkProbability ≤ draw))

/-- Go `handleDeathLink`. -/
def BounceRoom.handleDeathLink (room : BounceRoom) (p : BouncePacket) (msg : BounceMessage) : Handled :=
  match checkDeathLink p.slotName msg with
  | .error err => ⟨room, [], err⟩
  | .ok (data, dl) =>
    let room := { room with info := room.info.add p.client.slotId }
    if !room.info.passes p.draw then ⟨room, [⟨p, p.client, msg.bounced⟩], none⟩
    else
      let (room, allowed) := room.canSendDeathlink p.now
      if !allowed then ⟨room, [⟨p, p.client, msg.bounced⟩], none⟩
      else ⟨room, room.broadcastBounceFromSlot p { msg with data := some (dl.patch data) }, none⟩

/-- Go `handleBounce`; a packet that cannot be decoded is ignored. -/
def BounceRoom.handleBounce (room : BounceRoom) (p : BouncePacket) : Handled :=
  match p.msg with
  | none => ⟨room, [], none⟩
  | some msg =>
    if msg.isDeathLink then room.handleDeathLink p msg
    else ⟨room, room.broadcastBounceFromSlot p msg, none⟩

/-! ## Sequences of packets -/

/-- A packet is handled, or the settings or the connections become what something else made them. -/
inductive BounceEvent where
  | bounce (p : BouncePacket)
  | settings (limited : Finset ℤ) (excluded : Finset (ℤ × String)) (probability : ℚ)
  | connections (r : Registry)

/-- What an event does, and what is sent for it. -/
def BounceRoom.step (room : BounceRoom) : BounceEvent → BounceRoom × List Delivery
  | .bounce p => ((room.handleBounce p).room, (room.handleBounce p).sent)
  | .settings limited excluded probability =>
    ({ room with info :=
        { room.info with
          ownSlotOnly := limited
          excludedByTag := excluded
          deathlinkProbability := probability } }, [])
  | .connections r => ({ room with connections := r }, [])

/-- The room after some events, the first one first, and all that is sent. -/
def BounceRoom.run (room : BounceRoom) : List BounceEvent → BounceRoom × List Delivery
  | [] => (room, [])
  | e :: evs => (((room.step e).1.run evs).1, (room.step e).2 ++ ((room.step e).1.run evs).2)

/-- A slot is limited to its own clients throughout. -/
def LimitedThroughout (slots : Finset ℤ) (room : BounceRoom) (evs : List BounceEvent) : Prop :=
  slots ⊆ room.info.ownSlotOnly ∧
    ∀ limited excluded probability, .settings limited excluded probability ∈ evs → slots ⊆ limited

/-- A slot may not send DeathLinks throughout. -/
def ExcludedThroughout (slots : Finset ℤ) (room : BounceRoom) (evs : List BounceEvent) : Prop :=
  (∀ slot ∈ slots, (slot, "DeathLink") ∈ room.info.excludedByTag) ∧
    ∀ limited excluded probability, .settings limited excluded probability ∈ evs →
      ∀ slot ∈ slots, (slot, "DeathLink") ∈ excluded

/-- A packet that some slots sent. -/
def BouncePacket.sentBy (slots : Finset ℤ) (p : BouncePacket) : Bool := decide (p.client.slotId ∈ slots)

/-- A DeathLink packet. -/
def BouncePacket.isDeathLink (p : BouncePacket) : Bool :=
  match p.msg with
  | none => false
  | some msg => msg.isDeathLink

/-- A DeathLink packet that some slots sent. -/
def BouncePacket.deathLinkBy (slots : Finset ℤ) (p : BouncePacket) : Bool :=
  p.isDeathLink && p.sentBy slots

/-- The events without the packets of a kind. -/
def without (kind : BouncePacket → Bool) (evs : List BounceEvent) : List BounceEvent :=
  evs.filter fun e =>
    match e with
    | .bounce p => !kind p
    | _ => true

/-- Something that clients of other slots receive. -/
def Delivery.toOthers (slots : Finset ℤ) (d : Delivery) : Bool := !decide (d.client.slotId ∈ slots)

/-- A DeathLink packet of another slot that is delivered. -/
def Delivery.deathLinkOfOthers (slots : Finset ℤ) (d : Delivery) : Bool :=
  d.packet.isDeathLink && !d.packet.sentBy slots

/-- A packet is about to take the cooldown: it is a valid DeathLink that gets through the draw, and the
last one is long enough ago. -/
def BounceRoom.takes (room : BounceRoom) (p : BouncePacket) : Bool :=
  match p.msg with
  | none => false
  | some msg =>
    msg.isDeathLink && (checkDeathLink p.slotName msg).isOk && room.info.passes p.draw &&
      decide (deathlinkThrottle ≤ p.now - room.lastDeathlink)

/-- No packet of a kind takes the cooldown. -/
def Calm (kind : BouncePacket → Bool) (room : BounceRoom) : List BounceEvent → Prop
  | [] => True
  | e :: evs => (∀ p, e = .bounce p → kind p = true → room.takes p = false) ∧
      Calm kind (room.step e).1 evs

/-- Packets of a kind are not felt: whenever they stop, and whatever comes then, what is seen is the same as
without them. -/
def Unfelt (kind : BouncePacket → Bool) (seen : Delivery → Bool) (room : BounceRoom)
    (evs : List BounceEvent) : Prop :=
  ∀ before, before <+: evs → ∀ after, without kind after = after →
    (room.run (before ++ after)).2.filter seen =
      (room.run (without kind before ++ after)).2.filter seen

/-! ## The cooldown is all that packets share -/

/-- The same room but for the counts. -/
def BounceRoom.Agrees (room room' : BounceRoom) : Prop :=
  ∃ counts, room' = { room with info := { room.info with counts := counts } }

lemma BounceRoom.Agrees.refl (room : BounceRoom) : room.Agrees room := ⟨room.info.counts, rfl⟩

lemma BounceRoom.Agrees.trans {a b c : BounceRoom} (h : a.Agrees b) (h' : b.Agrees c) : a.Agrees c := by
  obtain ⟨_, rfl⟩ := h
  obtain ⟨counts, rfl⟩ := h'
  exact ⟨counts, rfl⟩

lemma BounceRoom.Agrees.symm {a b : BounceRoom} (h : a.Agrees b) : b.Agrees a := by
  obtain ⟨_, rfl⟩ := h
  exact ⟨a.info.counts, rfl⟩

/-- What is sent for a packet that does not take the cooldown: a DeathLink goes back to its sender. -/
def BounceRoom.replies (room : BounceRoom) (p : BouncePacket) : List Delivery :=
  match p.msg with
  | none => []
  | some msg =>
    if msg.isDeathLink then
      if (checkDeathLink p.slotName msg).isOk then [⟨p, p.client, msg.bounced⟩] else []
    else room.broadcastBounceFromSlot p msg

/-- The outcome for a valid DeathLink, in one test. -/
lemma BounceRoom.handleDeathLink_ok (room : BounceRoom) {p : BouncePacket} {msg : BounceMessage}
    {data : BTreeMap String Json} {dl : BounceDataDeathlink}
    (ok : checkDeathLink p.slotName msg = .ok (data, dl)) :
    room.handleDeathLink p msg =
      if room.info.passes p.draw = true ∧ deathlinkThrottle ≤ p.now - room.lastDeathlink then
        ⟨{ room with info := room.info.add p.client.slotId, lastDeathlink := p.now },
          room.broadcastBounceFromSlot p { msg with data := some (dl.patch data) }, none⟩
      else ⟨{ room with info := room.info.add p.client.slotId }, [⟨p, p.client, msg.bounced⟩], none⟩ := by
  have same : (room.info.add p.client.slotId).passes p.draw = room.info.passes p.draw := rfl
  unfold BounceRoom.handleDeathLink
  rw [ok]
  simp only [same]
  cases passes : room.info.passes p.draw with
  | false =>
    rw [Bool.not_false, if_pos rfl, if_neg fun h => Bool.false_ne_true h.1]
  | true =>
    by_cases cool : p.now - room.lastDeathlink < deathlinkThrottle
    · have stopped : ¬(true = true ∧ deathlinkThrottle ≤ p.now - room.lastDeathlink) := by omega
      rw [if_neg stopped, BounceRoom.canSendDeathlink, if_pos cool]
      rfl
    · have free : true = true ∧ deathlinkThrottle ≤ p.now - room.lastDeathlink := ⟨rfl, by omega⟩
      rw [if_pos free, BounceRoom.canSendDeathlink, if_neg cool]
      rfl

/-- A packet that takes the cooldown is sent with its patched data. -/
lemma BounceRoom.handleBounce_of_takes {room : BounceRoom} {p : BouncePacket}
    (h : room.takes p = true) :
    (room.info.passes p.draw = true ∧ deathlinkThrottle ≤ p.now - room.lastDeathlink) ∧
      ∃ msg data dl, p.msg = some msg ∧ checkDeathLink p.slotName msg = .ok (data, dl) ∧
        (room.handleBounce p).room =
          { room with info := room.info.add p.client.slotId, lastDeathlink := p.now } ∧
        (room.handleBounce p).sent =
          room.broadcastBounceFromSlot p { msg with data := some (dl.patch data) } := by
  unfold BounceRoom.takes at h
  unfold BounceRoom.handleBounce
  cases e : p.msg with
  | none =>
    rw [e] at h
    cases h
  | some msg =>
    simp only [e, Bool.and_eq_true, decide_eq_true_eq] at h ⊢
    obtain ⟨⟨⟨dead, valid⟩, passes⟩, cool⟩ := h
    cases ok : checkDeathLink p.slotName msg with
    | error err =>
      rw [ok] at valid
      cases valid
    | ok r =>
      obtain ⟨data, dl⟩ := r
      refine ⟨⟨passes, cool⟩, msg, data, dl, rfl, ok, ?_⟩
      rw [if_pos dead, room.handleDeathLink_ok ok, if_pos ⟨passes, cool⟩]
      exact ⟨rfl, rfl⟩

/-- A packet that does not take the cooldown leaves the room as it is, but for a count. -/
lemma BounceRoom.handleBounce_of_not_takes {room : BounceRoom} {p : BouncePacket}
    (h : room.takes p = false) :
    room.Agrees (room.handleBounce p).room ∧ (room.handleBounce p).sent = room.replies p := by
  unfold BounceRoom.takes at h
  unfold BounceRoom.handleBounce BounceRoom.replies
  cases e : p.msg with
  | none => exact ⟨.refl room, rfl⟩
  | some msg =>
    simp only [e] at h ⊢
    cases dead : msg.isDeathLink with
    | false => exact ⟨.refl room, rfl⟩
    | true =>
      rw [if_pos rfl, if_pos rfl]
      cases ok : checkDeathLink p.slotName msg with
      | error err =>
        unfold BounceRoom.handleDeathLink
        rw [ok]
        exact ⟨.refl room, rfl⟩
      | ok r =>
        obtain ⟨data, dl⟩ := r
        have stopped : ¬(room.info.passes p.draw = true ∧
            deathlinkThrottle ≤ p.now - room.lastDeathlink) := by
          rintro ⟨passes, cool⟩
          rw [dead, ok, passes, decide_eq_true cool] at h
          cases h
        rw [room.handleDeathLink_ok ok, if_neg stopped]
        exact ⟨⟨_, rfl⟩, rfl⟩

/-- Rooms that agree handle a packet alike. -/
lemma BounceRoom.Agrees.handleBounce {a b : BounceRoom} (h : a.Agrees b) (p : BouncePacket) :
    (a.handleBounce p).room.Agrees (b.handleBounce p).room ∧
      (a.handleBounce p).sent = (b.handleBounce p).sent := by
  have takes : a.takes p = b.takes p := by
    obtain ⟨counts, rfl⟩ := h
    rfl
  cases e : a.takes p with
  | false =>
    obtain ⟨stays, sent⟩ := BounceRoom.handleBounce_of_not_takes e
    obtain ⟨stays', sent'⟩ := BounceRoom.handleBounce_of_not_takes (takes ▸ e)
    refine ⟨stays.symm.trans (h.trans stays'), ?_⟩
    obtain ⟨counts, rfl⟩ := h
    rw [sent, sent']
    rfl
  | true =>
    obtain ⟨-, msg, data, dl, em, ok, after, sent⟩ := BounceRoom.handleBounce_of_takes e
    obtain ⟨-, msg', data', dl', em', ok', after', sent'⟩ := BounceRoom.handleBounce_of_takes (takes ▸ e)
    rw [em] at em'
    cases em'
    rw [ok] at ok'
    cases ok'
    obtain ⟨counts, rfl⟩ := h
    rw [after, after', sent, sent']
    exact ⟨⟨_, rfl⟩, rfl⟩

lemma BounceRoom.Agrees.step {a b : BounceRoom} (h : a.Agrees b) (e : BounceEvent) :
    (a.step e).1.Agrees (b.step e).1 ∧ (a.step e).2 = (b.step e).2 := by
  cases e with
  | bounce p => exact h.handleBounce p
  | settings limited excluded probability =>
    obtain ⟨counts, rfl⟩ := h
    exact ⟨⟨counts, rfl⟩, rfl⟩
  | connections r =>
    obtain ⟨counts, rfl⟩ := h
    exact ⟨⟨counts, rfl⟩, rfl⟩

/-- Rooms that agree send the same, whatever happens. -/
lemma BounceRoom.Agrees.run {a b : BounceRoom} (h : a.Agrees b) (evs : List BounceEvent) :
    (a.run evs).1.Agrees (b.run evs).1 ∧ (a.run evs).2 = (b.run evs).2 := by
  induction evs generalizing a b with
  | nil => exact ⟨h, rfl⟩
  | cons e evs ih =>
    obtain ⟨agrees, sent⟩ := h.step e
    obtain ⟨agrees, later⟩ := ih agrees
    exact ⟨agrees, by rw [BounceRoom.run, BounceRoom.run, sent, later]⟩

lemma BounceRoom.run_append (room : BounceRoom) (evs evs' : List BounceEvent) :
    room.run (evs ++ evs') =
      (((room.run evs).1.run evs').1, (room.run evs).2 ++ ((room.run evs).1.run evs').2) := by
  induction evs generalizing room with
  | nil => rfl
  | cons e evs ih =>
    rw [List.cons_append, BounceRoom.run, ih]
    simp only [BounceRoom.run, List.append_assoc]

/-! ## Without the cooldown nothing is felt -/

/-- Nothing is seen of the packets of a kind themselves. -/
def Hidden (kind : BouncePacket → Bool) (seen : Delivery → Bool) (room : BounceRoom) :
    List BounceEvent → Prop
  | [] => True
  | e :: evs => (∀ p, e = .bounce p → kind p = true → (room.handleBounce p).sent.filter seen = []) ∧
      Hidden kind seen (room.step e).1 evs

section

variable {kind : BouncePacket → Bool} {seen : Delivery → Bool}

lemma Calm.ofPrefix {room : BounceRoom} {evs before : List BounceEvent} (h : Calm kind room evs)
    (pre : before <+: evs) : Calm kind room before := by
  induction before generalizing room evs with
  | nil => trivial
  | cons e before ih =>
    obtain ⟨after, rfl⟩ := pre
    exact ⟨h.1, ih h.2 (List.prefix_append _ _)⟩

lemma Hidden.ofPrefix {room : BounceRoom} {evs before : List BounceEvent} (h : Hidden kind seen room evs)
    (pre : before <+: evs) : Hidden kind seen room before := by
  induction before generalizing room evs with
  | nil => trivial
  | cons e before ih =>
    obtain ⟨after, rfl⟩ := pre
    exact ⟨h.1, ih h.2 (List.prefix_append _ _)⟩

lemma Hidden.last {room : BounceRoom} {before : List BounceEvent} {p : BouncePacket}
    (h : Hidden kind seen room (before ++ [.bounce p])) (hk : kind p = true) :
    ((room.run before).1.handleBounce p).sent.filter seen = [] := by
  induction before generalizing room with
  | nil => exact h.1 p rfl hk
  | cons e before ih => exact ih h.2

lemma without_bounce (p : BouncePacket) (evs : List BounceEvent) :
    without kind (.bounce p :: evs) =
      if kind p = true then without kind evs else .bounce p :: without kind evs := by
  unfold without
  cases e : kind p with
  | true => rw [List.filter_cons_of_neg (by simp [e]), if_pos rfl]
  | false => rw [List.filter_cons_of_pos (by simp [e]), if_neg Bool.false_ne_true]

/-- As long as no packet of a kind takes the cooldown, leaving them out changes nothing that is seen. -/
lemma Calm.run_without {room room' : BounceRoom} {evs : List BounceEvent} (calm : Calm kind room evs)
    (hidden : Hidden kind seen room evs) (agrees : room.Agrees room') :
    (room.run evs).1.Agrees (room'.run (without kind evs)).1 ∧
      (room.run evs).2.filter seen = (room'.run (without kind evs)).2.filter seen := by
  induction evs generalizing room room' with
  | nil => exact ⟨agrees, rfl⟩
  | cons e evs ih =>
    -- an event that is kept is handled alike on both sides
    have both : without kind (e :: evs) = e :: without kind evs →
        (room.run (e :: evs)).1.Agrees (room'.run (without kind (e :: evs))).1 ∧
          (room.run (e :: evs)).2.filter seen =
            (room'.run (without kind (e :: evs))).2.filter seen := by
      intro kept
      obtain ⟨stays, sent⟩ := agrees.step e
      obtain ⟨stays, later⟩ := ih calm.2 hidden.2 stays
      rw [kept]
      refine ⟨stays, ?_⟩
      rw [BounceRoom.run, BounceRoom.run, List.filter_append, List.filter_append, sent, later]
    cases e with
    | settings limited excluded probability => exact both rfl
    | connections r => exact both rfl
    | bounce p =>
      cases hk : kind p with
      | false => exact both (by rw [without_bounce, if_neg (by rw [hk]; exact Bool.false_ne_true)])
      | true =>
        have stays := (BounceRoom.handleBounce_of_not_takes (calm.1 p rfl hk)).1
        have nothing := hidden.1 p rfl hk
        obtain ⟨stays, later⟩ := ih calm.2 hidden.2 (stays.symm.trans agrees)
        rw [without_bounce, if_pos hk]
        refine ⟨stays, ?_⟩
        rw [BounceRoom.run, List.filter_append, later]
        show (room.handleBounce p).sent.filter seen ++ _ = _
        rw [nothing, List.nil_append]

lemma Calm.unfelt {room : BounceRoom} {evs : List BounceEvent} (calm : Calm kind room evs)
    (hidden : Hidden kind seen room evs) : Unfelt kind seen room evs := by
  intro before pre after _
  obtain ⟨agrees, sent⟩ :=
    (calm.ofPrefix pre).run_without (hidden.ofPrefix pre) (BounceRoom.Agrees.refl room)
  rw [BounceRoom.run_append, BounceRoom.run_append, List.filter_append, List.filter_append, sent,
    (agrees.run after).2]

/-- The first packet of a kind that takes the cooldown. -/
lemma exists_first_takes {room : BounceRoom} {evs : List BounceEvent} (h : ¬Calm kind room evs) :
    ∃ before p, before ++ [.bounce p] <+: evs ∧ Calm kind room before ∧ kind p = true ∧
      (room.run before).1.takes p = true := by
  induction evs generalizing room with
  | nil => exact absurd trivial h
  | cons e evs ih =>
    by_cases here : ∀ p, e = .bounce p → kind p = true → room.takes p = false
    · have later : ¬Calm kind (room.step e).1 evs := fun calm => h ⟨here, calm⟩
      obtain ⟨before, p, pre, calm, hk, takes⟩ := ih later
      exact ⟨e :: before, p, (List.cons_prefix_cons).mpr ⟨rfl, pre⟩, ⟨here, calm⟩, hk, takes⟩
    · simp only [not_forall, Bool.not_eq_false] at here
      obtain ⟨p, rfl, hk, takes⟩ := here
      exact ⟨[], p, List.prefix_append [_] evs, trivial, hk, takes⟩

end

/-! ## A taken cooldown is felt -/

/-- The data of a DeathLink that leaves its source to the server. -/
def probeData : BTreeMap String Json :=
  ((∅ : BTreeMap String Json).insert "source" (.str "")).insert "time" (.num 1)

/-- A DeathLink that anyone could send. -/
def probe (client : Client) (now : ℤ) (draw : ℚ) : BouncePacket where
  client := client
  slotName := "x"
  msg := some ⟨"Bounce", none, none, some ["DeathLink"], some probeData⟩
  now := now
  draw := draw

lemma probe_check (client : Client) (now : ℤ) (draw : ℚ) :
    ∃ msg, (probe client now draw).msg = some msg ∧ msg.isDeathLink = true ∧
      msg.data = some probeData ∧ checkDeathLink "x" msg = .ok (probeData, ⟨1, some "x", none⟩) :=
  ⟨_, rfl, rfl, rfl, rfl⟩

lemma probe_patched : (BounceDataDeathlink.patch ⟨1, some "x", none⟩ probeData) ≠ probeData := by
  intro same
  have source := congrArg (fun data : BTreeMap String Json => data["source"]?) same
  have patched : ((BounceDataDeathlink.patch ⟨1, some "x", none⟩ probeData)["source"]?) =
      some (.str "x") := rfl
  have sent : probeData["source"]? = some (.str "") := rfl
  rw [patched, sent] at source
  simp at source

/-- A broadcast leaves the data of a message as they are. -/
lemma BounceRoom.data_of_broadcast {room : BounceRoom} {p : BouncePacket} {msg : BounceMessage}
    {d : Delivery} (h : d ∈ room.broadcastBounceFromSlot p msg) : d.msg.data = msg.data := by
  have keeps : ∀ {msg' : BounceMessage} {mine allowed}, d ∈ room.broadcastTo p msg' mine allowed →
      d.msg.data = msg'.data := by
    intro msg' mine allowed h
    obtain ⟨c, -, rfl⟩ := List.mem_map.mp h
    rfl
  unfold BounceRoom.broadcastBounceFromSlot at h
  simp only at h
  split at h
  · exact keeps h
  · rcases List.mem_append.mp h with h | h
    · exact keeps h
    · exact @keeps (room.stripTags p.client.slotId msg) _ _ h

/-- While the cooldown is on, the probe goes back to its sender as it was. -/
lemma BounceRoom.probe_blocked {room : BounceRoom} {now : ℤ}
    (cool : now - room.lastDeathlink < deathlinkThrottle) (client : Client) (draw : ℚ) :
    ∃ msg, (room.handleBounce (probe client now draw)).sent = [⟨probe client now draw, client, msg⟩] ∧
      msg.data = some probeData := by
  obtain ⟨msg, em, dead, data, ok⟩ := probe_check client now draw
  have blocked : room.takes (probe client now draw) = false := by
    have off : ¬deathlinkThrottle ≤ now - room.lastDeathlink := by omega
    show (_ && _ && _ && decide (deathlinkThrottle ≤ now - room.lastDeathlink)) = false
    rw [decide_eq_false off, Bool.and_false]
  obtain ⟨-, sent⟩ := BounceRoom.handleBounce_of_not_takes blocked
  have valid : (checkDeathLink (probe client now draw).slotName msg).isOk = true := by
    show (checkDeathLink "x" msg).isOk = true
    rw [ok]
    rfl
  refine ⟨msg.bounced, ?_, data⟩
  rw [sent, BounceRoom.replies, em]
  simp only
  rw [if_pos dead, if_pos valid]
  rfl

/-- Otherwise its data is patched wherever it goes. -/
lemma BounceRoom.probe_sent {room : BounceRoom} {now : ℤ} {draw : ℚ}
    (passes : room.info.passes draw = true) (free : deathlinkThrottle ≤ now - room.lastDeathlink)
    (client : Client) :
    ∀ d ∈ (room.handleBounce (probe client now draw)).sent, d.msg.data ≠ some probeData := by
  obtain ⟨msg, em, dead, -, ok⟩ := probe_check client now draw
  have takes : room.takes (probe client now draw) = true := by
    unfold BounceRoom.takes
    rw [em]
    show (msg.isDeathLink && (checkDeathLink "x" msg).isOk && room.info.passes draw &&
      decide (deathlinkThrottle ≤ now - room.lastDeathlink)) = true
    rw [dead, ok, passes, decide_eq_true free]
    rfl
  obtain ⟨-, msg', data, dl, em', ok', -, sent⟩ := BounceRoom.handleBounce_of_takes takes
  rw [em] at em'
  cases em'
  rw [show (probe client now draw).slotName = "x" from rfl, ok] at ok'
  cases ok'
  intro d hd same
  rw [sent] at hd
  have patched := BounceRoom.data_of_broadcast hd
  rw [same] at patched
  exact probe_patched (Option.some.inj patched).symm

/-- A packet that takes the cooldown is felt by a probe of a client that is watched. -/
lemma felt_of_takes {kind : BouncePacket → Bool} {seen : Delivery → Bool} {room : BounceRoom}
    {evs : List BounceEvent} (hidden : Hidden kind seen room evs) {client : Client}
    (other : ∀ now draw, kind (probe client now draw) = false)
    (watched : ∀ now draw msg, seen ⟨probe client now draw, client, msg⟩ = true)
    (taken : ¬Calm kind room evs) : ¬Unfelt kind seen room evs := by
  intro unfelt
  obtain ⟨before, p, pre, calm, hk, takes⟩ := exists_first_takes taken
  have pre' : before <+: evs := (List.prefix_append _ _).trans pre
  obtain ⟨agrees, sent⟩ := calm.run_without (hidden.ofPrefix pre') (BounceRoom.Agrees.refl room)
  have nothing := (hidden.ofPrefix pre).last hk
  obtain ⟨⟨passes, free⟩, -, -, -, -, -, after, -⟩ := BounceRoom.handleBounce_of_takes takes
  -- the probe comes at the same time as the packet, and is dropped for it
  have blocked : p.now - ((room.run before).1.handleBounce p).room.lastDeathlink < deathlinkThrottle := by
    rw [after]
    show p.now - p.now < deathlinkThrottle
    unfold deathlinkThrottle
    omega
  obtain ⟨msg, echo, data⟩ := BounceRoom.probe_blocked blocked client p.draw
  -- without the packet it is sent
  obtain ⟨counts, same⟩ := agrees
  have patched := @BounceRoom.probe_sent (room.run (without kind before)).1 p.now p.draw
    (by rw [same]; exact passes) (by rw [same]; exact free) client
  have kept : without kind [.bounce (probe client p.now p.draw)] =
      [.bounce (probe client p.now p.draw)] := by
    rw [without_bounce, if_neg (by rw [other]; exact Bool.false_ne_true)]
    rfl
  have felt := unfelt (before ++ [.bounce p]) pre _ kept
  have left : without kind (before ++ [.bounce p]) = without kind before := by
    have gone : without kind [.bounce p] = [] := by
      rw [without_bounce, if_pos hk]
      rfl
    rw [without, List.filter_append, ← without, ← without, gone, List.append_nil]
  rw [left, BounceRoom.run_append, BounceRoom.run_append, BounceRoom.run_append] at felt
  simp only [BounceRoom.run, BounceRoom.step, List.append_nil, List.filter_append, nothing, echo,
    sent, List.append_assoc, List.nil_append, List.append_cancel_left_eq] at felt
  have mem : (⟨probe client p.now p.draw, client, msg⟩ : Delivery) ∈
      ((room.run (without kind before)).1.handleBounce (probe client p.now p.draw)).sent := by
    apply List.mem_of_mem_filter
    rw [← felt]
    exact List.mem_filter.mpr ⟨List.mem_cons_self, watched _ _ _⟩
  exact patched _ mem data

/-! ## Isolated and excluded slots -/

/-- What is sent for a packet is one of two broadcasts of it, or goes back to its sender. -/
lemma BounceRoom.sent_cases {room : BounceRoom} {p : BouncePacket} {d : Delivery}
    (h : d ∈ (room.handleBounce p).sent) :
    (∃ msg, d ∈ room.broadcastBounceFromSlot p msg) ∨ ∃ msg, d = ⟨p, p.client, msg⟩ := by
  cases e : room.takes p with
  | true =>
    obtain ⟨-, msg, data, dl, -, -, -, sent⟩ := BounceRoom.handleBounce_of_takes e
    rw [sent] at h
    exact Or.inl ⟨_, h⟩
  | false =>
    rw [(BounceRoom.handleBounce_of_not_takes e).2, BounceRoom.replies] at h
    cases em : p.msg with
    | none =>
      rw [em] at h
      cases h
    | some msg =>
      simp only [em] at h
      split at h
      · split at h
        · exact Or.inr ⟨_, List.mem_singleton.mp h⟩
        · cases h
      · exact Or.inl ⟨msg, h⟩

/-- What the loops have collected after some clients: those seen, and of them those allowed. -/
structure Collected (mine allowed : Client → Bool) (l : List Client) (acc : List Client × List Client) :
    Prop where
  seen : ∀ c, c ∈ acc.2 ↔ c ∈ l ∧ mine c = true
  targets : ∀ c, c ∈ acc.1 ↔ c ∈ acc.2 ∧ allowed c = true
  once : acc.1.Nodup

lemma Collected.nil (mine allowed : Client → Bool) : Collected mine allowed [] ([], []) := by
  refine ⟨?_, ?_, List.nodup_nil⟩ <;> simp

/-- One call of `addTarget`. -/
lemma Collected.addTarget {mine allowed : Client → Bool} {l : List Client}
    {acc : List Client × List Client} (h : Collected mine allowed l acc) (c : Client) :
    Collected mine allowed (l ++ [c]) (Apx.addTarget mine allowed acc c) := by
  obtain ⟨seen, targets, once⟩ := h
  unfold Apx.addTarget
  cases own : mine c with
  | false =>
    refine ⟨?_, targets, once⟩
    intro d
    rw [if_pos (by rfl), seen, List.mem_append, List.mem_singleton]
    constructor
    · exact fun ⟨mem, m⟩ => ⟨Or.inl mem, m⟩
    · rintro ⟨mem | rfl, m⟩
      · exact ⟨mem, m⟩
      · rw [own] at m
        cases m
  | true =>
    rw [if_neg (by simp)]
    by_cases old : c ∈ acc.2
    · rw [if_pos old]
      refine ⟨?_, targets, once⟩
      intro d
      rw [seen, List.mem_append, List.mem_singleton]
      constructor
      · exact fun ⟨mem, m⟩ => ⟨Or.inl mem, m⟩
      · rintro ⟨mem | rfl, m⟩
        · exact ⟨mem, m⟩
        · exact (seen d).mp old
    · rw [if_neg old]
      have later : ∀ d, d ∈ acc.2 ++ [c] ↔ d ∈ l ++ [c] ∧ mine d = true := by
        intro d
        rw [List.mem_append, List.mem_append, seen, List.mem_singleton]
        constructor
        · rintro (⟨mem, m⟩ | rfl)
          · exact ⟨Or.inl mem, m⟩
          · exact ⟨Or.inr rfl, own⟩
        · rintro ⟨mem | rfl, m⟩
          · exact Or.inl ⟨mem, m⟩
          · exact Or.inr rfl
      cases may : allowed c with
      | false =>
        rw [if_neg (by simp)]
        refine ⟨later, ?_, once⟩
        intro d
        rw [targets, List.mem_append, List.mem_singleton]
        constructor
        · exact fun ⟨mem, m⟩ => ⟨Or.inl mem, m⟩
        · rintro ⟨mem | rfl, m⟩
          · exact ⟨mem, m⟩
          · rw [may] at m
            cases m
      | true =>
        rw [if_pos rfl]
        refine ⟨later, ?_, ?_⟩
        · intro d
          rw [List.mem_append, List.mem_append, targets, List.mem_singleton]
          constructor
          · rintro (⟨mem, m⟩ | rfl)
            · exact ⟨Or.inl mem, m⟩
            · exact ⟨Or.inr rfl, may⟩
          · rintro ⟨mem | rfl, m⟩
            · exact Or.inl ⟨mem, m⟩
            · exact Or.inr rfl
        · have fresh : c ∉ acc.1 := fun mem => old ((targets c).mp mem).1
          exact List.nodup_append.mpr ⟨once, List.nodup_singleton c, by
            rintro a mem b hb rfl
            rw [List.mem_singleton.mp hb] at mem
            exact fresh mem⟩

/-- All calls of `addTarget`. -/
lemma Collected.foldl {mine allowed : Client → Bool} {l : List Client} {acc : List Client × List Client}
    (h : Collected mine allowed l acc) (rest : List Client) :
    Collected mine allowed (l ++ rest) (rest.foldl (Apx.addTarget mine allowed) acc) := by
  induction rest generalizing l acc with
  | nil =>
    rw [List.append_nil]
    exact h
  | cons c rest ih =>
    have next := ih (h.addTarget c)
    rw [List.append_assoc, List.singleton_append] at next
    exact next

lemma BounceRoom.mem_broadcastTo {room : BounceRoom} {p : BouncePacket} {msg : BounceMessage}
    {mine allowed : Client → Bool} {d : Delivery} (h : d ∈ room.broadcastTo p msg mine allowed) :
    d.packet = p ∧ mine d.client = true := by
  obtain ⟨c, hc, rfl⟩ := List.mem_map.mp h
  have collected := (Collected.nil mine allowed).foldl (room.connections.addressed msg)
  exact ⟨rfl, ((collected.seen c).mp ((collected.targets c).mp hc).1).2⟩

/-- What is sent for a packet is sent for it. -/
lemma BounceRoom.packet_of_sent {room : BounceRoom} {p : BouncePacket} {d : Delivery}
    (h : d ∈ (room.handleBounce p).sent) : d.packet = p := by
  rcases BounceRoom.sent_cases h with ⟨msg, h⟩ | ⟨msg, rfl⟩
  · unfold BounceRoom.broadcastBounceFromSlot at h
    simp only at h
    split at h
    · exact (BounceRoom.mem_broadcastTo h).1
    · rcases List.mem_append.mp h with h | h
      · exact (BounceRoom.mem_broadcastTo h).1
      · exact (BounceRoom.mem_broadcastTo h).1
  · rfl

/-- What is sent for a packet of an isolated slot stays with that slot. -/
lemma BounceRoom.slot_of_sent {room : BounceRoom} {p : BouncePacket} {d : Delivery}
    (h : d ∈ (room.handleBounce p).sent) (limited : p.client.slotId ∈ room.info.ownSlotOnly) :
    d.client.slotId = p.client.slotId := by
  rcases BounceRoom.sent_cases h with ⟨msg, h⟩ | ⟨msg, rfl⟩
  · unfold BounceRoom.broadcastBounceFromSlot at h
    simp only [if_pos limited] at h
    exact of_decide_eq_true (BounceRoom.mem_broadcastTo h).2
  · rfl

/-- Handling packets leaves the isolated slots as they are. -/
lemma BounceRoom.ownSlotOnly_handleBounce (room : BounceRoom) (p : BouncePacket) :
    (room.handleBounce p).room.info.ownSlotOnly = room.info.ownSlotOnly := by
  cases e : room.takes p with
  | true =>
    obtain ⟨-, -, -, -, -, -, after, -⟩ := BounceRoom.handleBounce_of_takes e
    rw [after]
    rfl
  | false =>
    obtain ⟨⟨counts, after⟩, -⟩ := BounceRoom.handleBounce_of_not_takes e
    rw [after]

lemma LimitedThroughout.tail {slots : Finset ℤ} {room : BounceRoom} {e : BounceEvent}
    {evs : List BounceEvent} (h : LimitedThroughout slots room (e :: evs)) :
    LimitedThroughout slots (room.step e).1 evs := by
  refine ⟨?_, fun l x q mem => h.2 l x q (List.mem_cons_of_mem _ mem)⟩
  cases e with
  | bounce p =>
    show slots ⊆ (room.handleBounce p).room.info.ownSlotOnly
    rw [BounceRoom.ownSlotOnly_handleBounce]
    exact h.1
  | settings limited excluded probability => exact h.2 _ _ _ List.mem_cons_self
  | connections r => exact h.1

lemma LimitedThroughout.hidden {slots : Finset ℤ} {room : BounceRoom} {evs : List BounceEvent}
    (h : LimitedThroughout slots room evs) :
    Hidden (BouncePacket.sentBy slots) (Delivery.toOthers slots) room evs := by
  induction evs generalizing room with
  | nil => trivial
  | cons e evs ih =>
    refine ⟨?_, ih h.tail⟩
    rintro p rfl hk
    have mine : p.client.slotId ∈ slots := of_decide_eq_true hk
    apply List.filter_eq_nil_iff.mpr
    intro d hd
    have same := BounceRoom.slot_of_sent hd (h.1 mine)
    simp [Delivery.toOthers, same, mine]

lemma hidden_deathLinks (slots : Finset ℤ) (room : BounceRoom) (evs : List BounceEvent) :
    Hidden (BouncePacket.deathLinkBy slots) (Delivery.deathLinkOfOthers slots) room evs := by
  induction evs generalizing room with
  | nil => trivial
  | cons e evs ih =>
    refine ⟨?_, ih (room.step e).1⟩
    rintro p rfl hk
    apply List.filter_eq_nil_iff.mpr
    intro d hd
    have same := BounceRoom.packet_of_sent hd
    obtain ⟨-, sent⟩ := Bool.and_eq_true_iff.mp hk
    simp [Delivery.deathLinkOfOthers, same, sent]

/-- Isolated slots cannot be felt, and DeathLinks of excluded slots cannot, exactly as long as none of
their packets takes the cooldown; two sequences that differ only in packets of isolated slots are then the
same for all others. That a slot is excluded does not help or harm: exclusion comes after the cooldown. -/
theorem slots_are_felt_by_cooldown (slots : Finset ℤ) (room : BounceRoom) :
    (∀ evs, LimitedThroughout slots room evs →
      (Unfelt (BouncePacket.sentBy slots) (Delivery.toOthers slots) room evs ↔
        Calm (BouncePacket.sentBy slots) room evs)) ∧
    (∀ evs evs', LimitedThroughout slots room evs → LimitedThroughout slots room evs' →
      Calm (BouncePacket.sentBy slots) room evs → Calm (BouncePacket.sentBy slots) room evs' →
      without (BouncePacket.sentBy slots) evs = without (BouncePacket.sentBy slots) evs' →
      (room.run evs).2.filter (Delivery.toOthers slots) =
        (room.run evs').2.filter (Delivery.toOthers slots)) ∧
    ∀ evs, Unfelt (BouncePacket.deathLinkBy slots) (Delivery.deathLinkOfOthers slots) room evs ↔
      Calm (BouncePacket.deathLinkBy slots) room evs := by
  obtain ⟨slot, other⟩ := Infinite.exists_notMem_finset slots
  refine ⟨?_, ?_, ?_⟩
  · intro evs limited
    refine ⟨fun unfelt => ?_, fun calm => calm.unfelt limited.hidden⟩
    by_contra taken
    refine @felt_of_takes _ _ _ _ limited.hidden ⟨0, slot, ""⟩ ?_ ?_ taken unfelt
    · intro now draw
      exact decide_eq_false other
    · intro now draw msg
      exact Bool.not_eq_true' _ ▸ decide_eq_false other
  · intro evs evs' limited limited' calm calm' same
    have first := (calm.run_without limited.hidden (BounceRoom.Agrees.refl room)).2
    have second := (calm'.run_without limited'.hidden (BounceRoom.Agrees.refl room)).2
    rw [first, second, same]
  · intro evs
    have hidden := hidden_deathLinks slots room evs
    refine ⟨fun unfelt => ?_, fun calm => calm.unfelt hidden⟩
    by_contra taken
    have absent : ∀ now draw, (probe ⟨0, slot, ""⟩ now draw).sentBy slots = false :=
      fun now draw => decide_eq_false other
    refine @felt_of_takes _ _ _ _ hidden ⟨0, slot, ""⟩ ?_ ?_ taken unfelt
    · intro now draw
      show (_ && _) = false
      rw [absent, Bool.and_false]
    · intro now draw msg
      show (_ && !_) = true
      rw [absent]
      rfl

/-- A room where slot 1 is isolated and may not send DeathLinks, and slots 2 and 3 listen for them. -/
def deathRoom : BounceRoom where
  info := ⟨fun _ => 0, 1, {(1, "DeathLink")}, {1}⟩
  lastDeathlink := 0
  connections :=
    (Registry.new.register 2 ⟨2, 2, "Celeste"⟩ "Celeste" ["DeathLink"]).register 3 ⟨3, 3, "Celeste"⟩
      "Celeste" ["DeathLink"]

/-- A DeathLink of slot 1, when the cooldown is over. -/
def ownDeath : BounceEvent := .bounce (probe ⟨1, 1, "Celeste"⟩ 9000000000 0)

/-- A DeathLink of slot 2, one second later. -/
def otherDeath : BounceEvent := .bounce (probe ⟨2, 2, "Celeste"⟩ 10000000000 0)

/-- While the cooldown is on the isolated slot is not felt. -/
theorem ownDeath_unfelt :
    Unfelt (BouncePacket.sentBy {1}) (Delivery.toOthers {1}) { deathRoom with lastDeathlink := 8000000000 }
      [ownDeath] := by
  have limited : LimitedThroughout {1} { deathRoom with lastDeathlink := 8000000000 } [ownDeath] := by
    refine ⟨Finset.Subset.refl _, ?_⟩
    intro limited excluded probability mem
    cases List.mem_singleton.mp mem
  apply ((slots_are_felt_by_cooldown {1} { deathRoom with lastDeathlink := 8000000000 }).1 _ limited).mpr
  refine ⟨?_, trivial⟩
  intro p e _
  cases e
  decide

/-- Slot 3 gets the DeathLink of slot 2 only if slot 1, which is isolated and excluded, was silent. -/
theorem ownDeath_felt :
    ¬((∀ slots room evs evs', LimitedThroughout slots room evs → LimitedThroughout slots room evs' →
          without (BouncePacket.sentBy slots) evs = without (BouncePacket.sentBy slots) evs' →
          (room.run evs).2.filter (Delivery.toOthers slots) =
            (room.run evs').2.filter (Delivery.toOthers slots))) ∧
      ¬∀ slots room evs, ExcludedThroughout slots room evs →
        (room.run evs).2.filter (Delivery.deathLinkOfOthers slots) =
          (room.run (without (BouncePacket.deathLinkBy slots) evs)).2.filter
            (Delivery.deathLinkOfOthers slots) := by
  constructor
  · intro h
    have limited : ∀ evs, evs = [ownDeath, otherDeath] ∨ evs = [otherDeath] →
        LimitedThroughout {1} deathRoom evs := by
      rintro evs (rfl | rfl) <;> refine ⟨Finset.Subset.refl _, ?_⟩ <;>
        intro limited excluded probability mem <;> simp [ownDeath, otherDeath] at mem
    have same := h {1} deathRoom [ownDeath, otherDeath] [otherDeath] (limited _ (Or.inl rfl))
      (limited _ (Or.inr rfl)) rfl
    have lengths := congrArg List.length same
    revert lengths
    decide
  · intro h
    have excluded : ExcludedThroughout {1} deathRoom [ownDeath, otherDeath] := by
      refine ⟨by decide, ?_⟩
      intro limited excluded probability mem
      simp [ownDeath, otherDeath] at mem
    have lengths := congrArg List.length (h {1} deathRoom [ownDeath, otherDeath] excluded)
    revert lengths
    decide

end ArchipelagoXL.Apx
