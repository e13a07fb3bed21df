import ArchipelagoXL.Apx.Bounce

/-!
# Who gets a bounce

A packet is sent in two passes (`apx/server.go`): first to the clients of the sender's own slot, with all
its tags, then to the other slots, less the tags that the sender is excluded from. A pass collects the
clients that are filed under the tags, games and slots of the message, each of them once.

`broadcast_reaches` says whom the two passes reach together, in terms of the clients that are there and the
tags they have.
-/

namespace ArchipelagoXL.Apx

/-- Each client is filed under its slot, its game and its tags, and nowhere else. -/
structure Filed (r : Registry) (who : Presence) : Prop where
  clients : ∀ s c, c ∈ r.clients.get s ↔ c ∈ who.present ∧ c.slotId = s
  byGame : ∀ g c, c ∈ r.clientsByGame.get g ↔ c ∈ who.present ∧ c.game = g
  byTag : ∀ t c, c ∈ r.clientsByTag.get t ↔ c ∈ who.present ∧ t ∈ who.tagsOf c

/-- Maps that agree file each client where it belongs. -/
lemma Agrees.filed {r : Registry} {who : Presence} (h : Agrees r who) : Filed r who :=
  ⟨h.clients, h.byGame, h.byTag⟩

/-- A client has the game or the slot of a message. -/
def BounceMessage.Names (msg : BounceMessage) (c : Client) : Prop :=
  c.game ∈ msg.games.getD [] ∨ c.slotId ∈ msg.slots.getD []

/-- A client has a tag of a message that is not held back. -/
def BounceMessage.Tagged (msg : BounceMessage) (who : Presence) (back : String → Prop) (c : Client) :
    Prop :=
  ∃ tag ∈ msg.tags.getD [], ¬back tag ∧ tag ∈ who.tagsOf c

/-- Whom a message from a slot should reach. -/
def BounceInfo.Reaches (info : BounceInfo) (who : Presence) (slot : ℤ) (msg : BounceMessage)
    (c : Client) : Prop :=
  c ∈ who.present ∧
    (c.slotId = slot ∧ (msg.Tagged who (fun _ => False) c ∨ msg.Names c) ∨
      slot ∉ info.ownSlotOnly ∧ c.slotId ≠ slot ∧ c.slotId ∉ info.ownSlotOnly ∧
        (msg.Tagged who (fun tag => (slot, tag) ∈ info.excludedByTag) c ∨ msg.Names c))

/-- The tags of a message as a client of a slot should see them. -/
def BounceInfo.tagsFor (info : BounceInfo) (slot : ℤ) (tags : Option (List String)) (c : Client) :
    Option (List String) :=
  if c.slotId = slot then tags
  else tags.map fun tags => tags.filter fun tag => (slot, tag) ∉ info.excludedByTag

/-! ## One pass -/

/-- The clients that are filed under a message are those that are there and match it. -/
lemma Filed.mem_addressed {r : Registry} {who : Presence} (h : Filed r who) {msg : BounceMessage}
    {c : Client} :
    c ∈ r.addressed msg ↔ c ∈ who.present ∧ (msg.Tagged who (fun _ => False) c ∨ msg.Names c) := by
  unfold Registry.addressed
  simp only [List.mem_append, List.mem_flatMap, h.clients, h.byGame, h.byTag]
  constructor
  · rintro ((⟨tag, mem, there, has⟩ | ⟨game, mem, there, rfl⟩) | ⟨slot, mem, there, rfl⟩)
    · exact ⟨there, Or.inl ⟨tag, mem, id, has⟩⟩
    · exact ⟨there, Or.inr (Or.inl mem)⟩
    · exact ⟨there, Or.inr (Or.inr mem)⟩
  · rintro ⟨there, ⟨tag, mem, -, has⟩ | mem | mem⟩
    · exact Or.inl (Or.inl ⟨tag, mem, there, has⟩)
    · exact Or.inl (Or.inr ⟨_, mem, there, rfl⟩)
    · exact Or.inr ⟨_, mem, there, rfl⟩

/-- The clients of a pass are those it addresses that are of its kind and allowed. -/
lemma BounceRoom.mem_clients_broadcastTo {room : BounceRoom} {p : BouncePacket} {msg : BounceMessage}
    {mine allowed : Client → Bool} {c : Client} :
    c ∈ (room.broadcastTo p msg mine allowed).map Delivery.client ↔
      (c ∈ room.connections.addressed msg ∧ mine c = true) ∧ allowed c = true := by
  have all := (Collected.nil mine allowed).foldl (room.connections.addressed msg)
  rw [List.nil_append] at all
  unfold BounceRoom.broadcastTo
  rw [List.map_map, ← all.seen, ← all.targets]
  constructor
  · intro h
    obtain ⟨d, hd, rfl⟩ := List.mem_map.mp h
    exact hd
  · exact fun h => List.mem_map.mpr ⟨c, h, rfl⟩

lemma BounceRoom.nodup_broadcastTo (room : BounceRoom) (p : BouncePacket) (msg : BounceMessage)
    (mine allowed : Client → Bool) :
    ((room.broadcastTo p msg mine allowed).map Delivery.client).Nodup := by
  have all := (Collected.nil mine allowed).foldl (room.connections.addressed msg)
  unfold BounceRoom.broadcastTo
  rw [List.map_map]
  exact all.once.map fun _ _ e => e

lemma BounceRoom.msg_of_broadcastTo {room : BounceRoom} {p : BouncePacket} {msg : BounceMessage}
    {mine allowed : Client → Bool} {d : Delivery} (h : d ∈ room.broadcastTo p msg mine allowed) :
    d.msg = msg.bounced := by
  obtain ⟨c, -, rfl⟩ := List.mem_map.mp h
  rfl

/-- Stripping a message holds its tags back. -/
lemma BounceRoom.tagged_stripTags {room : BounceRoom} {slot : ℤ} {msg : BounceMessage} {who : Presence}
    {c : Client} :
    (room.stripTags slot msg).Tagged who (fun _ => False) c ↔
      msg.Tagged who (fun tag => (slot, tag) ∈ room.info.excludedByTag) c := by
  unfold BounceRoom.stripTags BounceMessage.Tagged
  cases msg.tags with
  | none => simp
  | some tags => simp [and_assoc]

/-- The first pass reaches the clients of the sender's slot that match. -/
lemma Filed.mem_broadcastBounceToSlot {room : BounceRoom} {who : Presence} (filed : Filed room.connections who)
    {p : BouncePacket} {msg : BounceMessage} {c : Client} :
    c ∈ (room.broadcastBounceToSlot p msg).map Delivery.client ↔ c ∈ who.present ∧
      c.slotId = p.client.slotId ∧ (msg.Tagged who (fun _ => False) c ∨ msg.Names c) := by
  unfold BounceRoom.broadcastBounceToSlot
  rw [BounceRoom.mem_clients_broadcastTo, filed.mem_addressed, decide_eq_true_iff]
  tauto

/-! ## Both passes -/

/-- Each client gets at most one packet, and it gets one exactly if the message should reach it. Clients of
the sender's slot see all tags, others those the sender is not excluded from; the games, the slots and the
data are those of the message. -/
theorem broadcast_reaches (room : BounceRoom) (who : Presence) (filed : Filed room.connections who)
    (p : BouncePacket) (msg : BounceMessage) :
    ((room.broadcastBounceFromSlot p msg).map Delivery.client).Nodup ∧
      (∀ c, c ∈ (room.broadcastBounceFromSlot p msg).map Delivery.client ↔
        room.info.Reaches who p.client.slotId msg c) ∧
      ∀ d ∈ room.broadcastBounceFromSlot p msg, d.packet = p ∧
        d.msg = ⟨"Bounced", msg.games, msg.slots,
          room.info.tagsFor p.client.slotId msg.tags d.client, msg.data⟩ := by
  have others : ∀ c, c ∈ (room.broadcastBounce p (room.stripTags p.client.slotId msg)).map
      Delivery.client ↔ c ∈ who.present ∧ c.slotId ≠ p.client.slotId ∧
        c.slotId ∉ room.info.ownSlotOnly ∧
        (msg.Tagged who (fun tag => (p.client.slotId, tag) ∈ room.info.excludedByTag) c ∨
          msg.Names c) := by
    intro c
    unfold BounceRoom.broadcastBounce
    rw [BounceRoom.mem_clients_broadcastTo, filed.mem_addressed, BounceRoom.tagged_stripTags]
    have names : (room.stripTags p.client.slotId msg).Names c ↔ msg.Names c := Iff.rfl
    simp only [names, Bool.not_eq_true', decide_eq_false_iff_not]
    tauto
  have ownMsg : ∀ d ∈ room.broadcastBounceToSlot p msg, d.packet = p ∧
      d.msg = ⟨"Bounced", msg.games, msg.slots,
        room.info.tagsFor p.client.slotId msg.tags d.client, msg.data⟩ := by
    intro d hd
    obtain ⟨packet, mine⟩ := BounceRoom.mem_broadcastTo hd
    refine ⟨packet, ?_⟩
    rw [BounceRoom.msg_of_broadcastTo hd, BounceInfo.tagsFor, if_pos (of_decide_eq_true mine)]
    rfl
  have othersMsg : ∀ d ∈ room.broadcastBounce p (room.stripTags p.client.slotId msg), d.packet = p ∧
      d.msg = ⟨"Bounced", msg.games, msg.slots,
        room.info.tagsFor p.client.slotId msg.tags d.client, msg.data⟩ := by
    intro d hd
    obtain ⟨packet, mine⟩ := BounceRoom.mem_broadcastTo hd
    have elsewhere : d.client.slotId ≠ p.client.slotId := by simpa using mine
    refine ⟨packet, ?_⟩
    rw [BounceRoom.msg_of_broadcastTo hd, BounceInfo.tagsFor, if_neg elsewhere]
    simp [BounceMessage.bounced, BounceRoom.stripTags]
  unfold BounceRoom.broadcastBounceFromSlot BounceInfo.Reaches
  simp only
  by_cases limited : p.client.slotId ∈ room.info.ownSlotOnly
  · rw [if_pos limited]
    refine ⟨room.nodup_broadcastTo _ _ _ _, ?_, ownMsg⟩
    intro c
    rw [filed.mem_broadcastBounceToSlot]
    tauto
  · rw [if_neg limited, List.map_append]
    refine ⟨?_, ?_, ?_⟩
    · refine (room.nodup_broadcastTo _ _ _ _).append (room.nodup_broadcastTo _ _ _ _) ?_
      intro c first second
      exact ((others c).mp second).2.1 (filed.mem_broadcastBounceToSlot.mp first).2.1
    · intro c
      rw [List.mem_append, filed.mem_broadcastBounceToSlot, others]
      tauto
    · intro d hd
      rcases List.mem_append.mp hd with hd | hd
      · exact ownMsg d hd
      · exact othersMsg d hd

/-- Two clients of slot 1, and one each of slots 2 and 3, which all listen for DeathLinks. -/
def listeners : Registry × Presence :=
  [(⟨1, 1, "Celeste"⟩, ["DeathLink"]), (⟨2, 1, "Celeste"⟩, ["AP", "DeathLink"]),
    (⟨3, 2, "Celeste"⟩, ["DeathLink", "AP"]), (⟨4, 3, "Celeste"⟩, ["DeathLink"])].foldl
      (fun r (c : Client × List String) => (r.1.step (.register c.1 c.2), r.2.step (.register c.1 c.2)))
      (.new, ⟨∅, ∅, ∅, fun _ => []⟩)

lemma listeners_filed : Filed listeners.1 listeners.2 := by
  have one := @Tidy.register _ _ tidy_new ⟨1, 1, "Celeste"⟩ ["DeathLink"] (by decide)
  have two := @Tidy.register _ _ one ⟨2, 1, "Celeste"⟩ ["AP", "DeathLink"] (by decide)
  have three := @Tidy.register _ _ two ⟨3, 2, "Celeste"⟩ ["DeathLink", "AP"] (by decide)
  have four := @Tidy.register _ _ three ⟨4, 3, "Celeste"⟩ ["DeathLink"] (by decide)
  exact four.agrees.filed

/-- Slot 1 may not send DeathLinks: its own clients get one, slot 2 gets it by another tag, slot 3 not. -/
theorem listeners_reached :
    let info : BounceInfo := ⟨fun _ => 0, 1, {(1, "DeathLink")}, ∅⟩
    let msg : BounceMessage := ⟨"Bounce", none, none, some ["DeathLink", "AP"], none⟩
    info.Reaches listeners.2 1 msg ⟨2, 1, "Celeste"⟩ ∧ info.Reaches listeners.2 1 msg ⟨3, 2, "Celeste"⟩ ∧
      ¬info.Reaches listeners.2 1 msg ⟨4, 3, "Celeste"⟩ := by
  intro info msg
  have reached := (broadcast_reaches ⟨info, 0, listeners.1⟩ listeners.2 listeners_filed
    ⟨⟨1, 1, "Celeste"⟩, "one", some msg, 0, 0⟩ msg).2.1
  refine ⟨(reached _).mp (by decide), (reached _).mp (by decide), fun h => ?_⟩
  exact absurd ((reached _).mpr h) (by decide)

end ArchipelagoXL.Apx
