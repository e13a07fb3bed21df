import ArchipelagoXL.Apx.Reconnect

/-!
# The latest tags

The tags of a client come with its Connect, with a later one, and with each ConnectUpdate (`apx/auth.go`). A packet
that says nothing of tags is sent on as it is, and for the Archipelago server the tags stay; the room decodes it with no
tags, and puts these in the place of those that the client had.

A run has the packets of one connection and whatever else is done to the registry meanwhile.
`tags_follow_iff` says in which runs the registry has after each packet the tags that were named last.
-/

namespace ArchipelagoXL.Apx

/-- Each client is filed under the tags that the registry has for it. -/
def Registry.TagsFiled (r : Registry) : Prop :=
  ∀ c tag, (r.clientsByTag.get tag).count c = ((r.tags c).getD []).count tag

/-- Nothing in the registry has the address of the client. -/
def Registry.Unfiled (r : Registry) (c : Client) : Prop :=
  r.tags c = none ∧ ∀ tag, c ∉ r.clientsByTag.get tag

/-- Only a new client is registered. -/
def Registry.Takes (r : Registry) (op : RegistryOp) : Prop := ∀ c tags, op = .register c tags → r.Unfiled c

/-- The client that an operation is for. -/
def RegistryOp.client : RegistryOp → Option Client
  | .register c _ | .updateTags c _ | .unregister c => some c
  | .kick _ => none

namespace Registry

variable {r : Registry} {c : Client} {tags : List String} {op : RegistryOp}

lemma tagsFiled_new : Registry.new.TagsFiled := by
  intro c tag
  rfl

lemma TagsFiled.register (filed : r.TagsFiled) (unfiled : r.Unfiled c) (slotId : ℤ) (game : String) :
    (r.register slotId c game tags).TagsFiled := by
  intro b tag
  have before := filed b tag
  simp only [Registry.register, ListMap.count_pushAll]
  by_cases e : b = c
  · subst e
    rw [unfiled.1] at before
    simp [before]
  · simp [e, before]

lemma TagsFiled.updateTags (filed : r.TagsFiled) : (r.updateTags c tags).TagsFiled := by
  intro b tag
  have before := filed b tag
  simp only [Registry.updateTags, ListMap.count_pushAll, ListMap.count_discardAll]
  by_cases e : b = c
  · subst e
    simp [before]
  · simp [e, before]

lemma TagsFiled.kickClient (filed : r.TagsFiled) : (r.kickClient c).TagsFiled := by
  intro b tag
  have before := filed b tag
  simp only [Registry.kickClient, ListMap.count_foldl_drop]
  by_cases e : b = c
  · subst e
    simp [before]
  · simp [e, before]

lemma TagsFiled.kick (filed : r.TagsFiled) (slotId : ℤ) : (r.kick slotId).TagsFiled := by
  have loop : ∀ (l : List Client) (r : Registry), r.TagsFiled → (l.foldl Registry.kickClient r).TagsFiled := by
    intro l
    induction l with
    | nil => exact fun _ filed => filed
    | cons c l ih => exact fun r filed => ih _ filed.kickClient
  exact loop _ _ filed

lemma TagsFiled.unregister (filed : r.TagsFiled) : (r.unregister c).TagsFiled := by
  rw [Registry.unregister]
  split
  · intro b tag
    have before := filed b tag
    simp only [ListMap.count_discardAll]
    by_cases e : b = c
    · subst e
      simp [before]
    · simp [e, before]
  · exact filed

/-- Whatever is done, the clients stay filed under their tags. -/
lemma TagsFiled.step (filed : r.TagsFiled) (takes : r.Takes op) : (r.step op).TagsFiled := by
  cases op with
  | register c tags => exact filed.register (takes c tags rfl) c.slotId c.game
  | updateTags c tags => exact filed.updateTags
  | kick slotId => exact filed.kick slotId
  | unregister c => exact filed.unregister

lemma TagsFiled.mem_iff (filed : r.TagsFiled) (known : r.tags c = some tags) (tag : String) :
    c ∈ r.clientsByTag.get tag ↔ tag ∈ tags := by
  rw [← List.count_pos_iff, filed c tag, known, Option.getD_some, List.count_pos_iff]

end Registry

namespace Auth

/-! ## Runs -/

/-- The registry of a room and one of its connections. -/
structure Site where
  connections : Registry
  conn : ConnectionState

/-- What happens to the two: a packet on the connection, in a room that may have changed since the one before, or
something that is done to the registry for another connection or by a refresh. -/
inductive Happening where
  | packet (s : Room) (packet : Packet) (w : World)
  | elsewhere (op : RegistryOp)

def Site.step (site : Site) : Happening → Site
  | .packet s packet w =>
    let handled := s.handleMessage site.conn packet w
    match handled.op with
    | some op => ⟨site.connections.step op, handled.conn⟩
    | none => ⟨site.connections, handled.conn⟩
  | .elsewhere op => ⟨site.connections.step op, site.conn⟩

/-- What some happenings lead to, the newest first, from a room without clients and a new connection. -/
def siteAfter (reduced : Bool) : List Happening → Site
  | [] => ⟨.new, .opened reduced⟩
  | h :: run => (siteAfter reduced run).step h

/-- The tags in a packet. -/
def Packet.tags : Packet → Option (List String)
  | .connect raw => raw.bind fun msg => msg.tags
  | .connectUpdate raw => raw.bind fun msg => msg.tags

/-- A packet of the connection is accepted: the registry is told of its tags. -/
def Site.accepts (site : Site) : Happening → Bool
  | .packet s packet w => (s.handleMessage site.conn packet w).op.isSome
  | .elsewhere _ => false

/-- The tags that a happening names. -/
def Happening.tags : Happening → Option (List String)
  | .packet _ p _ => p.tags
  | .elsewhere _ => none

/-- The tags of the latest accepted packet that had any. -/
def lastTags (reduced : Bool) : List Happening → List String
  | [] => []
  | h :: run =>
    if (siteAfter reduced run).accepts h then h.tags.getD (lastTags reduced run) else lastTags reduced run

/-- The registry has these tags for the client of the connection, and its bounces go to the client just for these. -/
def Site.HasTags (site : Site) (tags : List String) : Prop :=
  ∃ client, site.conn.registeredClient = some client ∧ site.connections.tags client = some tags ∧
    ∀ tag, client ∈ site.connections.clientsByTag.get tag ↔ tag ∈ tags

/-- A new client has a new address, and the client of the connection is its own. -/
def Site.Allows (site : Site) : Happening → Prop
  | .packet s packet w => ∀ op, (s.handleMessage site.conn packet w).op = some op → site.connections.Takes op
  | .elsewhere op => site.connections.Takes op ∧ ∀ c, op.client = some c → site.conn.registeredClient ≠ some c

/-- A run that can happen. -/
def Legal (reduced : Bool) : List Happening → Prop
  | [] => True
  | h :: run => Legal reduced run ∧ (siteAfter reduced run).Allows h

/-- After each accepted packet the registry has the tags that were named last. -/
def TagsFollow (reduced : Bool) : List Happening → Prop
  | [] => True
  | h :: run => TagsFollow reduced run ∧
      ((siteAfter reduced run).accepts h → (siteAfter reduced (h :: run)).HasTags (lastTags reduced (h :: run)))

/-- A packet that says nothing of tags only comes while there are none. -/
def TagsNamed (reduced : Bool) : List Happening → Prop
  | [] => True
  | h :: run => TagsNamed reduced run ∧
      ((siteAfter reduced run).accepts h → h.tags = none → lastTags reduced run = [])

/-! ## What a packet does -/

variable {site : Site} {s : Room} {conn : ConnectionState} {packet : Packet} {w : World} {op : RegistryOp}

lemma ConnectionState.op_sendInvalidPacket {cmd : String} : (conn.sendInvalidPacket cmd w).op = none := by
  rw [ConnectionState.sendInvalidPacket]
  split <;> rfl

lemma ConnectionState.op_sendConnectionRefused {reason : String} :
    (conn.sendConnectionRefused reason w).op = none := by
  rw [ConnectionState.sendConnectionRefused]
  split
  · simp only
    split <;> rfl
  · rfl

/-- The registry is told of these tags, if of any, for the client of the connection. -/
def Handled.Tells (handled : Handled) (tags : List String) : Prop :=
  ∀ op, handled.op = some op → ∃ client, handled.conn.registeredClient = some client ∧
    (op = .register client tags ∨ op = .updateTags client tags)

lemma Handled.tells_of_none {handled : Handled} {tags : List String} (none : handled.op = none) :
    handled.Tells tags := by
  intro op some
  rw [none] at some
  cases some

lemma Room.tells_handleConnect {raw : Option ConnectMessage} :
    (s.handleConnect conn raw w).Tells ((raw.bind fun msg => msg.tags).getD []) := by
  cases raw with
  | none => exact Handled.tells_of_none ConnectionState.op_sendInvalidPacket
  | some msg =>
    rw [Room.handleConnect]
    simp only
    split
    · exact Handled.tells_of_none ConnectionState.op_sendConnectionRefused
    · split
      · exact Handled.tells_of_none ConnectionState.op_sendConnectionRefused
      · split
        · exact Handled.tells_of_none ConnectionState.op_sendConnectionRefused
        · split
          · exact Handled.tells_of_none rfl
          · split <;> exact Handled.tells_of_none rfl
          · intro op registers
            cases registers
            exact ⟨_, rfl, .inl rfl⟩

lemma Room.tells_handleAuthedConnect {client : Client} {raw : Option ConnectMessage}
    (registered : conn.registeredClient = some client) :
    (s.handleAuthedConnect conn client raw w).Tells ((raw.bind fun msg => msg.tags).getD []) := by
  cases raw with
  | none => exact Handled.tells_of_none ConnectionState.op_sendInvalidPacket
  | some msg =>
    rw [Room.handleAuthedConnect]
    simp only
    split
    · exact Handled.tells_of_none rfl
    · split
      · intro op updates
        cases updates
        exact ⟨client, registered, .inr rfl⟩
      · exact Handled.tells_of_none rfl

lemma tells_handleConnectUpdate {client : Client} {raw : Option ConnectUpdateMessage}
    (registered : conn.registeredClient = some client) :
    (handleConnectUpdate conn client raw w).Tells ((raw.bind fun msg => msg.tags).getD []) := by
  cases raw with
  | none => exact Handled.tells_of_none ConnectionState.op_sendInvalidPacket
  | some msg =>
    rw [handleConnectUpdate]
    split
    · intro op updates
      cases updates
      exact ⟨client, registered, .inr rfl⟩
    · intro op updates
      cases updates
      exact ⟨client, registered, .inr rfl⟩

/-- Whatever the packet, the registry is told of the tags in it; of none if it has no tags. -/
lemma Room.tells_handleMessage : (s.handleMessage conn packet w).Tells (packet.tags.getD []) := by
  cases packet with
  | connect raw =>
    rw [Room.handleMessage]
    cases registered : conn.registeredClient with
    | some client => exact Room.tells_handleAuthedConnect registered
    | none => exact Room.tells_handleConnect
  | connectUpdate raw =>
    rw [Room.handleMessage]
    cases registered : conn.registeredClient with
    | some client => exact tells_handleConnectUpdate registered
    | none => exact Handled.tells_of_none rfl

/-! ## The tags after a run -/

lemma Site.tagsFiled_step {h : Happening} (filed : site.connections.TagsFiled) (allows : site.Allows h) :
    (site.step h).connections.TagsFiled := by
  cases h with
  | packet s packet w =>
    rw [Site.step]
    cases done : (s.handleMessage site.conn packet w).op with
    | none => simpa only [done] using filed
    | some op => simpa only [done] using filed.step (allows op done)
  | elsewhere op => exact filed.step allows.1

lemma tagsFiled_of_legal {reduced : Bool} {run : List Happening} (legal : Legal reduced run) :
    (siteAfter reduced run).connections.TagsFiled := by
  induction run with
  | nil => exact Registry.tagsFiled_new
  | cons h run ih => exact Site.tagsFiled_step (ih legal.1) legal.2

/-- After an accepted packet the registry has the tags in it, and no others. -/
lemma Site.hasTags_step_iff {h : Happening} (filed : (site.step h).connections.TagsFiled) (accepts : site.accepts h)
    {tags : List String} : (site.step h).HasTags tags ↔ tags = h.tags.getD [] := by
  cases h with
  | elsewhere op => cases accepts
  | packet s packet w =>
    obtain ⟨op, done⟩ := Option.isSome_iff_exists.mp accepts
    obtain ⟨client, registered, told⟩ := Room.tells_handleMessage op done
    have after : site.step (.packet s packet w) =
        ⟨site.connections.step op, (s.handleMessage site.conn packet w).conn⟩ := by
      rw [Site.step]
      simp only [done]
    have known : (site.connections.step op).tags client = some (packet.tags.getD []) := by
      rcases told with rfl | rfl
      · exact Function.update_self ..
      · exact Function.update_self ..
    rw [after] at filed ⊢
    constructor
    · rintro ⟨other, same, has, -⟩
      rw [registered] at same
      cases same
      rw [known] at has
      exact (Option.some.inj has).symm
    · rintro rfl
      exact ⟨client, registered, known, filed.mem_iff known⟩

/-- The registry follows the tags of a client in just the runs in which a packet without tags only comes while the
client has none. -/
theorem tags_follow_iff (reduced : Bool) (run : List Happening) (legal : Legal reduced run) :
    TagsFollow reduced run ↔ TagsNamed reduced run := by
  induction run with
  | nil => exact Iff.rfl
  | cons h run ih =>
    rw [TagsFollow, TagsNamed, ih legal.1]
    apply and_congr_right
    intro _
    apply forall_congr'
    intro accepts
    rw [lastTags, if_pos accepts]
    have filed := tagsFiled_of_legal legal
    rw [siteAfter] at filed ⊢
    rw [Site.hasTags_step_iff filed accepts]
    cases h.tags with
    | none => simp
    | some tags => simp

/-- The client gets in, with a tag. -/
def annJoins : Happening :=
  .packet (annsRoom true) (.connect (some annsConnect)) ⟨true, true, .answered [.connected 1 (some "Celeste")], 0⟩

/-- A ConnectUpdate of the client. -/
def annUpdates (itemsHandling : Option ℤ) (tags : Option (List String)) : Happening :=
  .packet (annsRoom true) (.connectUpdate (some ⟨"ConnectUpdate", itemsHandling, tags⟩)) ⟨true, true, .undialed, 1⟩

lemma legal_annUpdates (itemsHandling : Option ℤ) (tags : Option (List String)) :
    Legal true [annUpdates itemsHandling tags, annJoins] := by
  refine ⟨⟨trivial, ?_⟩, ?_⟩
  · intro op joins c tags registers
    cases joins
    cases registers
    exact ⟨rfl, fun _ => List.not_mem_nil⟩
  · intro op updates c tags registers
    cases updates
    cases registers

theorem tags_follow_named : TagsFollow true [annUpdates none (some ["TrapLink"]), annJoins] := by
  apply (tags_follow_iff true _ (legal_annUpdates none (some ["TrapLink"]))).mpr
  refine ⟨⟨trivial, ?_⟩, ?_⟩
  · intro _ none
    cases none
  · intro _ none
    cases none

/-- An update of the handling of items takes the tags away. -/
theorem tags_lost : ¬ ∀ (reduced : Bool) (run : List Happening), Legal reduced run → TagsFollow reduced run := by
  intro follow
  obtain ⟨-, after⟩ := follow true _ (legal_annUpdates (some 7) none)
  obtain ⟨client, registered, tags, -⟩ := after rfl
  cases registered
  revert tags
  decide

end Auth

end ArchipelagoXL.Apx
