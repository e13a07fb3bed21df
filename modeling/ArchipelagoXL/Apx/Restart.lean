import ArchipelagoXL.Apx.Restore

/-!
# What a restart changes

After any operations, for every running room, a restart would build the settings that the room has in
memory, with two exceptions. The first is an upload under the id of a room that was stopped:
`startNewHostedRoom` saves the row, but `Save` leaves `disabled` and the probability of an old row,
and nothing deletes the old room's settings or restores them into the new room. The second is a DeathLink
on a connection that an earlier room of the id left open, which is counted in the table only.
`restart_changes_nothing_iff` says that nothing else goes wrong.
-/

namespace ArchipelagoXL.Apx

/-! ## One room -/

section

variable {players : String → RoomPlayers} {db : RoomStore} {id : String} {room : HostedRoom}

/-- Two stores have the same rows for a room. -/
structure SameAt (db db' : RoomStore) (id : String) : Prop where
  rooms : db'.rooms id = db.rooms id
  fullFeed : db'.fullFeed id = db.fullFeed id
  slotBounceExclusions : db'.slotBounceExclusions id = db.slotBounceExclusions id
  bounceTagExclusions : db'.bounceTagExclusions id = db.bounceTagExclusions id
  altConnectNames : db'.altConnectNames id = db.altConnectNames id
  slotDeaths : db'.slotDeaths id = db.slotDeaths id

lemma SameAt.refl : SameAt db db id := ⟨rfl, rfl, rfl, rfl, rfl, rfl⟩

lemma SameAt.trans {db' db'' : RoomStore} (h : SameAt db db' id) (h' : SameAt db' db'' id) :
    SameAt db db'' id :=
  ⟨h'.rooms.trans h.rooms, h'.fullFeed.trans h.fullFeed,
    h'.slotBounceExclusions.trans h.slotBounceExclusions,
    h'.bounceTagExclusions.trans h.bounceTagExclusions,
    h'.altConnectNames.trans h.altConnectNames, h'.slotDeaths.trans h.slotDeaths⟩

/-- A room is kept by the rows of its own. -/
lemma Kept.congr {db' : RoomStore} (h : Kept players db id room) (same : SameAt db db' id) :
    Kept players db' id room := by
  refine ⟨?_, h.players_eq, ?_, ?_, ?_, ?_, ?_⟩
  · rw [same.rooms]
    exact h.record
  · rw [same.fullFeed]
    exact h.fullFeed
  · rw [same.bounceTagExclusions]
    exact h.tags
  · rw [same.slotBounceExclusions]
    exact h.limited
  · rw [same.altConnectNames]
    exact h.names
  · rw [same.slotDeaths]
    exact h.counts

lemma mem_override {A : Type} [DecidableEq A] {s : Finset A} {a b : A} {keep : Bool} :
    b ∈ (if keep then insert a s else s.erase a) ↔ if b = a then keep = true else b ∈ s := by
  by_cases e : b = a <;> cases keep <;> simp [e]

/-- A change of the full feed and the row for it: it is stored if it differs from the default. -/
lemma Kept.writeFullFeed (h : Kept players db id room) (slot : ℤ) (allowed : Bool) :
    Kept players (db.writeFullFeed id slot (allowed == room.reducedAccess)) id
      (room.setFullFeed slot allowed) := by
  refine ⟨h.record, h.players_eq, ?_, h.tags, h.limited, h.names, h.counts⟩
  intro s own
  show s ∈ (if allowed then insert slot room.fullFeed else room.fullFeed.erase slot) ↔
    (s ∈ Function.update db.fullFeed id _ id ↔ room.reducedAccess = true)
  rw [Function.update_self, mem_write, mem_override]
  by_cases e : s = slot
  · rw [if_pos e, if_pos e]
    cases allowed <;> cases room.reducedAccess <;> simp
  · rw [if_neg e, if_neg e]
    exact h.fullFeed s own

/-- The same for an excluded tag. -/
lemma Kept.writeBounceTag (h : Kept players db id room) (slot : ℤ) (tag : String) (excluded : Bool) :
    Kept players (db.writeBounceTag id slot tag
      (excluded != (decide (tag = "DeathLink") && room.deathlinkDisabled))) id
      { room with bounceInfo := room.bounceInfo.setExcluded slot tag excluded } := by
  refine ⟨h.record, h.players_eq, h.fullFeed, ?_, h.limited, h.names, h.counts⟩
  intro s own t
  show (s, t) ∈ (if excluded then insert (slot, tag) room.bounceInfo.excludedByTag
      else room.bounceInfo.excludedByTag.erase (slot, tag)) ↔
    ((s, t) ∈ Function.update db.bounceTagExclusions id _ id ↔
      ¬ (t = "DeathLink" ∧ room.deathlinkDisabled = true))
  rw [Function.update_self, mem_write, mem_override]
  by_cases e : (s, t) = (slot, tag)
  · rw [if_pos e, if_pos e]
    obtain ⟨rfl, rfl⟩ := Prod.mk.inj e
    by_cases dl : t = "DeathLink" <;> cases excluded <;> cases room.deathlinkDisabled <;> simp [dl]
  · rw [if_neg e, if_neg e]
    exact h.tags s own t

/-- A slot is kept to itself, or no more. -/
lemma Kept.writeSlotBounce (h : Kept players db id room) (slot : ℤ) (limited : Bool) :
    Kept players (db.writeSlotBounce id slot limited) id
      { room with bounceInfo := room.bounceInfo.setLimited slot limited } := by
  refine ⟨h.record, h.players_eq, h.fullFeed, h.tags, ?_, h.names, h.counts⟩
  intro s own
  show s ∈ (if limited then insert slot room.bounceInfo.ownSlotOnly
      else room.bounceInfo.ownSlotOnly.erase slot) ↔
    s ∈ Function.update db.slotBounceExclusions id _ id
  rw [Function.update_self, mem_write, mem_override]
  by_cases e : s = slot
  · rw [if_pos e, if_pos e]
  · rw [if_neg e, if_neg e]
    exact h.limited s own

/-- A name that stands for nothing yet is given. -/
lemma Kept.addAltName (h : Kept players db id room) {altName : String} (slotName : String)
    (unused : room.altConnectNames altName = none) :
    Kept players (db.addAltConnectName id altName slotName) id
      { room with
        altConnectNames := Function.update room.altConnectNames altName (some slotName) } := by
  refine ⟨h.record, h.players_eq, h.fullFeed, h.tags, h.limited, ?_, h.counts⟩
  intro alt n
  show Function.update room.altConnectNames altName (some slotName) alt = some n ↔
    (alt, n) ∈ Function.update db.altConnectNames id _ id
  rw [Function.update_self, mem_insertOrIgnore]
  by_cases e : alt = altName
  · subst e
    have out : (alt, n) ∉ db.altConnectNames id := by
      intro mem
      rw [(h.names alt n).2 mem] at unused
      cases unused
    rw [Function.update_self]
    simp [out, eq_comm]
  · rw [Function.update_of_ne e, h.names alt n]
    simp [e]

/-- A name is taken back. -/
lemma Kept.removeAltName (h : Kept players db id room) (altName : String) :
    Kept players (db.deleteAltConnectName id altName) id
      { room with altConnectNames := Function.update room.altConnectNames altName none } := by
  refine ⟨h.record, h.players_eq, h.fullFeed, h.tags, h.limited, ?_, h.counts⟩
  intro alt n
  show Function.update room.altConnectNames altName none alt = some n ↔
    (alt, n) ∈ Function.update db.altConnectNames id _ id
  rw [Function.update_self, mem_deleteWhere]
  by_cases e : alt = altName
  · subst e
    simp
  · rw [Function.update_of_ne e, h.names alt n]
    simp [e]

/-- The row takes the probability of the room. -/
lemma Kept.setProbability (h : Kept players db id room) (probability : ℚ) :
    Kept players (db.saveDeathlinkProbability id probability) id
      { room with
        bounceInfo := { room.bounceInfo with deathlinkProbability := probability } } := by
  refine ⟨?_, h.players_eq, h.fullFeed, h.tags, h.limited, h.names, h.counts⟩
  obtain ⟨row, hrow, enabled, ap, dl, red, _⟩ := h.record
  refine ⟨{ row with deathlinkProbability := probability }, ?_, enabled, ap, dl, red, rfl⟩
  show Function.update db.rooms id _ id = _
  rw [Function.update_self, hrow]
  rfl

/-- A death is counted in memory and in the table. -/
lemma Kept.countDeath (h : Kept players db id room) (slot : ℤ) :
    Kept players (db.incrementSlotDeathCount id slot) id
      { room with bounceInfo := room.bounceInfo.add slot } := by
  refine ⟨h.record, h.players_eq, h.fullFeed, h.tags, h.limited, h.names, ?_⟩
  intro s own
  show Function.update room.bounceInfo.counts slot _ s =
    (Function.update db.slotDeaths id _ id s).getD 0
  rw [Function.update_self]
  by_cases e : s = slot
  · subst e
    rw [Function.update_self, Function.update_self, h.counts s own]
    rfl
  · rw [Function.update_of_ne e, Function.update_of_ne e]
    exact h.counts s own

/-- Nothing is stored that a restart would load into a new room of the id. -/
structure Fresh (players : String → RoomPlayers) (db : RoomStore) (id apRoomId : String) : Prop where
  record : ∀ row, db.rooms id = some row → row.disabled = false ∧ row.deathlinkProbability = 1
  fullFeed : ∀ s ∈ (players apRoomId).slots, s ∉ db.fullFeed id
  tags : ∀ s ∈ (players apRoomId).slots, ∀ t, (s, t) ∉ db.bounceTagExclusions id
  limited : ∀ s ∈ (players apRoomId).slots, s ∉ db.slotBounceExclusions id
  names : db.altConnectNames id = []
  counts : ∀ s ∈ (players apRoomId).slots, (db.slotDeaths id s).getD 0 = 0

/-- The row that `save` leaves. -/
lemma save_row {ap : String} {per dl red : Bool} :
    ∃ row, (db.save id ap per dl red).rooms id = some row ∧ row.apRoomId = ap ∧
      row.perSlotPasswords = per ∧ row.deathlinkDisabled = dl ∧ row.reducedAccess = red ∧
      ((db.rooms id = none ∧ row.disabled = false ∧ row.deathlinkProbability = 1) ∨
        ∃ old, db.rooms id = some old ∧ row.disabled = old.disabled ∧
          row.deathlinkProbability = old.deathlinkProbability) := by
  unfold RoomStore.save
  simp only [Function.update_self]
  cases h : db.rooms id with
  | none => exact ⟨_, rfl, rfl, rfl, rfl, rfl, .inl ⟨rfl, rfl, rfl⟩⟩
  | some old => exact ⟨_, rfl, rfl, rfl, rfl, rfl, .inr ⟨old, rfl, rfl, rfl⟩⟩

/-- If an uploaded room is kept, nothing was left under its id. -/
lemma fresh_of_kept {ap : String} {per dl red : Bool}
    (h : Kept players (db.save id ap per dl red) id (newHostedRoom players ap per dl red 1)) :
    Fresh players db id ap := by
  obtain ⟨row, hrow, -, -, -, -, old⟩ := @save_row db id ap per dl red
  obtain ⟨row', hrow', enabled, -, -, -, prob⟩ := h.record
  cases hrow.symm.trans hrow'
  refine ⟨?_, ?_, ?_, ?_, ?_, ?_⟩
  · intro r hr
    rcases old with ⟨none, -⟩ | ⟨r', hr', disabledEq, probEq⟩
    · rw [none] at hr
      cases hr
    · cases hr.symm.trans hr'
      exact ⟨disabledEq ▸ enabled, probEq ▸ prob⟩
  · intro s own stored
    have new := mem_newFullFeed.symm.trans (h.fullFeed s own)
    have stored : s ∈ (db.save id ap per dl red).fullFeed id := stored
    have default : (newHostedRoom players ap per dl red 1).reducedAccess = red := rfl
    simp only [default, own, stored, and_true, true_iff] at new
    cases red <;> simp at new
  · intro s own t stored
    have new := mem_newExcluded.symm.trans (h.tags s own t)
    have stored : (s, t) ∈ (db.save id ap per dl red).bounceTagExclusions id := stored
    have default : (newHostedRoom players ap per dl red 1).deathlinkDisabled = dl := rfl
    simp only [default, own, stored, and_true, true_iff] at new
    tauto
  · intro s own stored
    have new := (h.limited s own).2 stored
    simp [newHostedRoom] at new
  · apply List.eq_nil_iff_forall_not_mem.2
    intro p mem
    have new := (h.names p.1 p.2).2 mem
    cases new
  · intro s own
    exact (h.counts s own).symm

/-- If nothing was left under its id, an uploaded room is kept. -/
lemma kept_of_fresh {ap : String} {per dl red : Bool} (fresh : Fresh players db id ap) :
    Kept players (db.save id ap per dl red) id (newHostedRoom players ap per dl red 1) := by
  obtain ⟨row, hrow, apEq, -, dlEq, redEq, old⟩ := @save_row db id ap per dl red
  have kept : row.disabled = false ∧ row.deathlinkProbability = 1 := by
    rcases old with ⟨-, new⟩ | ⟨r, hr, disabledEq, probEq⟩
    · exact new
    · rw [disabledEq, probEq]
      exact fresh.record r hr
  refine ⟨⟨row, hrow, kept.1, apEq, dlEq, redEq, kept.2⟩, rfl, ?_, ?_, ?_, ?_, ?_⟩
  · intro s own
    rw [mem_newFullFeed]
    have out : s ∉ (db.save id ap per dl red).fullFeed id := fresh.fullFeed s own
    have own : s ∈ (players ap).slots := own
    show _ ↔ (_ ↔ red = true)
    simp [own, out]
  · intro s own t
    rw [mem_newExcluded]
    have out : (s, t) ∉ (db.save id ap per dl red).bounceTagExclusions id := fresh.tags s own t
    have own : s ∈ (players ap).slots := own
    show _ ↔ (_ ↔ ¬ (t = "DeathLink" ∧ dl = true))
    simp [own, out, and_comm]
  · intro s own
    have out : s ∉ (db.save id ap per dl red).slotBounceExclusions id := fresh.limited s own
    simp [newHostedRoom, out]
  · intro alt n
    have out : (db.save id ap per dl red).altConnectNames id = [] := fresh.names
    simp [newHostedRoom, out]
  · intro s own
    exact (fresh.counts s own).symm

/-- Nothing is left of a room that was deleted. -/
lemma fresh_deleteRoom {apRoomId : String} : Fresh players (db.deleteRoom id) id apRoomId := by
  refine ⟨?_, ?_, ?_, ?_, ?_, ?_⟩
  · intro row hrow
    simp [RoomStore.deleteRoom] at hrow
  · simp [RoomStore.deleteRoom]
  · simp [RoomStore.deleteRoom]
  · simp [RoomStore.deleteRoom]
  · simp [RoomStore.deleteRoom]
  · simp [RoomStore.deleteRoom]

/-- A started room is kept: it is what the saved rows say. -/
lemma kept_started {record : RoomRecord} {per dl red : Bool} (hrow : db.rooms id = some record)
    (enabled : record.disabled = false) (func : Functional (db.altConnectNames id)) :
    Kept players (db.save id record.apRoomId per dl red) id
      ((newHostedRoom players record.apRoomId per dl red record.deathlinkProbability).restore
        (db.save id record.apRoomId per dl red) id) := by
  obtain ⟨row, saved, apEq, perEq, dlEq, redEq, old⟩ := @save_row db id record.apRoomId per dl red
  rcases old with ⟨none, -⟩ | ⟨r, hr, disabledEq, probEq⟩
  · rw [none] at hrow
    cases hrow
  · cases hr.symm.trans hrow
    have kept := @kept_restore players (db.save id record.apRoomId per dl red) id row func saved
      (disabledEq.trans enabled)
    rw [apEq, perEq, dlEq, redEq, probEq] at kept
    exact kept

end

/-! ## The frame -/

section

variable {db : RoomStore} {id k : String}

lemma sameAt_rooms {row : Option RoomRecord} (ne : k ≠ id) :
    SameAt db { db with rooms := Function.update db.rooms id row } k :=
  ⟨Function.update_of_ne ne _ _, rfl, rfl, rfl, rfl, rfl⟩

lemma sameAt_fullFeed {rows : List ℤ} (ne : k ≠ id) :
    SameAt db { db with fullFeed := Function.update db.fullFeed id rows } k :=
  ⟨rfl, Function.update_of_ne ne _ _, rfl, rfl, rfl, rfl⟩

lemma sameAt_slotBounces {rows : List ℤ} (ne : k ≠ id) :
    SameAt db { db with slotBounceExclusions := Function.update db.slotBounceExclusions id rows } k :=
  ⟨rfl, rfl, Function.update_of_ne ne _ _, rfl, rfl, rfl⟩

lemma sameAt_bounceTags {rows : List (ℤ × String)} (ne : k ≠ id) :
    SameAt db { db with bounceTagExclusions := Function.update db.bounceTagExclusions id rows } k :=
  ⟨rfl, rfl, rfl, Function.update_of_ne ne _ _, rfl, rfl⟩

lemma sameAt_altNames {rows : List (String × String)} (ne : k ≠ id) :
    SameAt db { db with altConnectNames := Function.update db.altConnectNames id rows } k :=
  ⟨rfl, rfl, rfl, rfl, Function.update_of_ne ne _ _, rfl⟩

lemma sameAt_slotDeaths {rows : ℤ → Option ℕ} (ne : k ≠ id) :
    SameAt db { db with slotDeaths := Function.update db.slotDeaths id rows } k :=
  ⟨rfl, rfl, rfl, rfl, rfl, Function.update_of_ne ne _ _⟩

lemma sameAt_deleteRoom (ne : k ≠ id) : SameAt db (db.deleteRoom id) k :=
  ⟨Function.update_of_ne ne _ _, Function.update_of_ne ne _ _, Function.update_of_ne ne _ _,
    Function.update_of_ne ne _ _, Function.update_of_ne ne _ _, Function.update_of_ne ne _ _⟩

lemma sameAt_dropStale {record : RoomRecord} {req : RoomStartRequest} (ne : k ≠ id) :
    SameAt db (db.dropStale id record req) k := by
  unfold RoomStore.dropStale
  split <;> split
  · exact (sameAt_bounceTags ne).trans (sameAt_fullFeed ne)
  · exact sameAt_bounceTags ne
  · exact sameAt_fullFeed ne
  · exact .refl

/-- What a start deletes is of two tables. -/
lemma dropStale_rooms {record : RoomRecord} {req : RoomStartRequest} :
    (db.dropStale id record req).rooms = db.rooms ∧
      (db.dropStale id record req).altConnectNames = db.altConnectNames := by
  unfold RoomStore.dropStale
  split <;> split <;> exact ⟨rfl, rfl⟩

end

/-! ## The manager -/

section

variable {players : String → RoomPlayers} {m m' : Manager} {id : String}

@[simp] lemma add_running_self {room : HostedRoom} : (m.add id room).running id = some room :=
  Function.update_self ..

@[simp] lemma add_running_of_ne {room : HostedRoom} {k : String} (ne : k ≠ id) :
    (m.add id room).running k = m.running k :=
  Function.update_of_ne ne ..

@[simp] lemma remove_running_self : (m.remove id).running id = none := Function.update_self ..

@[simp] lemma remove_running_of_ne {k : String} (ne : k ≠ id) :
    (m.remove id).running k = m.running k :=
  Function.update_of_ne ne ..

/-- Every running room is kept, and no alternative name stands for two slots. -/
structure Stored (players : String → RoomPlayers) (m : Manager) : Prop where
  functional : ∀ id, Functional (m.store.altConnectNames id)
  kept : ∀ id room, m.running id = some room → Kept players m.store id room

lemma Stored.unchanged (h : Stored players m) : Unchanged players m :=
  fun id room run => (h.kept id room run).unchanged

/-- It is enough to look at the room that an operation is about. -/
lemma Stored.of_room (h : Stored players m) (id : String)
    (same : ∀ k, k ≠ id → SameAt m.store m'.store k)
    (running : ∀ k, k ≠ id → m'.running k = m.running k)
    (func : Functional (m'.store.altConnectNames id))
    (kept : ∀ room, m'.running id = some room → Kept players m'.store id room) :
    Stored players m' := by
  refine ⟨?_, ?_⟩
  · intro k
    by_cases e : k = id
    · rw [e]
      exact func
    · rw [(same k e).altConnectNames]
      exact h.functional k
  · intro k room run
    by_cases e : k = id
    · subst e
      exact kept room run
    · rw [running k e] at run
      exact (h.kept k room run).congr (same k e)

/-- A request that keeps the room it changes, and the rows of the others as they are. -/
def Keeps (players : String → RoomPlayers) (id : String)
    (f : HostedRoom → RoomStore → Except String (HostedRoom × RoomStore)) : Prop :=
  ∀ room db room' db', Kept players db id room → f room db = .ok (room', db') →
    Kept players db' id room' ∧ ∀ k, k ≠ id → SameAt db db' k

lemma Stored.withRoom {f : HostedRoom → RoomStore → Except String (HostedRoom × RoomStore)}
    (h : Stored players m) (keeps : Keeps players id f) : Stored players (m.withRoom id f).1 := by
  unfold Manager.withRoom
  split
  · exact h
  · rename_i room run
    split
    · exact h
    · rename_i room' db' eq
      obtain ⟨kept, same⟩ := keeps room m.store room' db' (h.kept id room run) eq
      refine h.of_room id same ?_ kept.functional ?_
      · intro k ne
        exact add_running_of_ne ne
      · intro r run'
        cases add_running_self.symm.trans run'
        exact kept

/-- The row of a slot is there if what it is set to is not the default. -/
lemma handleFullFeedUser_eq {slot : ℤ} {method : Method} {room : HostedRoom} {db : RoomStore} :
    handleFullFeedUser id slot method room db =
      (room.setFullFeed slot (method = .post),
        db.writeFullFeed id slot (decide (method = .post) == room.reducedAccess)) := by
  cases method <;> cases red : room.reducedAccess <;> simp only [handleFullFeedUser, red] <;> rfl

lemma handleFullFeedUser_keeps {slot : ℤ} {method : Method} :
    Keeps players id fun room db => .ok (handleFullFeedUser id slot method room db) := by
  intro room db room' db' kept eq
  have eq := Except.ok.inj eq
  rw [handleFullFeedUser_eq] at eq
  cases eq
  exact ⟨kept.writeFullFeed slot _, fun k ne => sameAt_fullFeed ne⟩

lemma handleBounceExclusions_eq {slot : ℤ} {tag : String} {method : Method} {room : HostedRoom}
    {db : RoomStore} :
    handleBounceExclusions id slot tag method room db =
      if tag = "" then .error "missing tag"
      else .ok
        ({ room with bounceInfo := room.bounceInfo.setExcluded slot tag (method = .post) },
          db.writeBounceTag id slot tag
            (decide (method = .post) != (decide (tag = "DeathLink") && room.deathlinkDisabled))) := by
  unfold handleBounceExclusions
  split
  · rfl
  · cases method <;> cases default : decide (tag = "DeathLink") && room.deathlinkDisabled <;> rfl

lemma handleBounceExclusions_keeps {slot : ℤ} {tag : String} {method : Method} :
    Keeps players id (handleBounceExclusions id slot tag method) := by
  intro room db room' db' kept eq
  rw [handleBounceExclusions_eq] at eq
  split at eq
  · cases eq
  · cases eq
    exact ⟨kept.writeBounceTag slot tag _, fun k ne => sameAt_bounceTags ne⟩

lemma handleSlotBounceExclusions_keeps {slot : ℤ} {method : Method} :
    Keeps players id fun room db => .ok (handleSlotBounceExclusions id slot method room db) := by
  intro room db room' db' kept eq
  cases method with
  | post =>
    cases eq
    exact ⟨kept.writeSlotBounce slot true, fun k ne => sameAt_slotBounces ne⟩
  | delete =>
    cases eq
    exact ⟨kept.writeSlotBounce slot false, fun k ne => sameAt_slotBounces ne⟩

lemma handleAddAltName_keeps {altName slotName : String} :
    Keeps players id (handleAddAltName id altName slotName) := by
  intro room db room' db' kept eq
  unfold handleAddAltName at eq
  split at eq
  · cases eq
  split at eq
  · cases eq
  split at eq
  · cases eq
  split at eq
  · split at eq <;> cases eq
  · rename_i unused
    cases eq
    exact ⟨kept.addAltName slotName unused, fun k ne => sameAt_altNames ne⟩

lemma handleRemoveAltName_keeps {altName : String} :
    Keeps players id fun room db => .ok (handleRemoveAltName id altName room db) := by
  intro room db room' db' kept eq
  cases eq
  exact ⟨kept.removeAltName altName, fun k ne => sameAt_altNames ne⟩

lemma handleDeathlinkProbability_keeps {probability : ℚ} :
    Keeps players id (handleDeathlinkProbability id probability) := by
  intro room db room' db' kept eq
  unfold handleDeathlinkProbability at eq
  split at eq
  · cases eq
  · cases eq
    exact ⟨kept.setProbability probability, fun k ne => sameAt_rooms ne⟩

lemma countDeath_keeps {slot : ℤ} :
    Keeps players id fun room db => .ok (countDeath id slot room db) := by
  intro room db room' db' kept eq
  cases eq
  exact ⟨kept.countDeath slot, fun k ne => sameAt_slotDeaths ne⟩

/-- An upload starts the room, unless one of its id runs. -/
lemma handleUploadRoom_fst {req : UploadRoomRequest} {ap : String} :
    (m.handleUploadRoom players req ap).1 =
      match m.running (req.roomId ap) with
      | some _ => m
      | none =>
        { m with
          store := m.store.save (req.roomId ap) ap req.perSlotPasswords req.deathlinkDisabled
            req.reducedAccess }.add (req.roomId ap)
          (newHostedRoom players ap req.perSlotPasswords req.deathlinkDisabled req.reducedAccess 1) := by
  unfold Manager.handleUploadRoom Manager.startNewHostedRoom
  cases m.running (req.roomId ap) <;> rfl

lemma Stored.upload (h : Stored players m) {req : UploadRoomRequest} {ap : String}
    (clean : m.running (req.roomId ap) = none → Fresh players m.store (req.roomId ap) ap) :
    Stored players (m.handleUploadRoom players req ap).1 := by
  rw [handleUploadRoom_fst]
  split
  · exact h
  · rename_i idle
    refine h.of_room (req.roomId ap) ?_ ?_ (h.functional _) ?_
    · intro k ne
      exact sameAt_rooms ne
    · intro k ne
      exact add_running_of_ne ne
    · intro room run
      cases add_running_self.symm.trans run
      exact kept_of_fresh (clean idle)

/-- The row of a room after the start has enabled it. -/
lemma enable_row {db : RoomStore} {record : RoomRecord} (hrow : db.rooms id = some record) :
    (db.enable id record).rooms id = some { record with disabled := false } := by
  unfold RoomStore.enable
  split
  · show Function.update db.rooms id _ id = _
    rw [Function.update_self, hrow]
    rfl
  · rename_i enabled
    have enabled : record.disabled = false := by simpa using enabled
    rw [hrow, ← enabled]

lemma sameAt_enable {db : RoomStore} {record : RoomRecord} {k : String} (ne : k ≠ id) :
    SameAt db (db.enable id record) k := by
  unfold RoomStore.enable
  split
  · exact sameAt_rooms ne
  · exact .refl

lemma enable_altConnectNames {db : RoomStore} {record : RoomRecord} :
    (db.enable id record).altConnectNames = db.altConnectNames := by
  unfold RoomStore.enable
  split <;> rfl

lemma Stored.start (h : Stored players m) {req : RoomStartRequest} {up : Bool} :
    Stored players (m.handleRoomStart players id req up).1 := by
  unfold Manager.handleRoomStart
  split
  · exact h
  · exact h
  · rename_i record idle hrow
    have frame : ∀ k, k ≠ id →
        SameAt m.store ((m.store.dropStale id record req).enable id record) k :=
      fun k ne => (sameAt_dropStale ne).trans (sameAt_enable ne)
    have func : Functional
        (((m.store.dropStale id record req).enable id record).altConnectNames id) := by
      rw [enable_altConnectNames, dropStale_rooms.2]
      exact h.functional id
    have row : ((m.store.dropStale id record req).enable id record).rooms id =
        some { record with disabled := false } := by
      apply enable_row
      rw [dropStale_rooms.1, hrow]
    cases up with
    | false =>
      refine h.of_room id frame (fun k _ => rfl) func ?_
      intro room run
      have run : m.running id = some room := run
      rw [idle] at run
      cases run
    | true =>
      simp only [Manager.startNewHostedRoom, idle, if_true]
      refine h.of_room id ?_ ?_ func ?_
      · intro k ne
        exact (frame k ne).trans (sameAt_rooms ne)
      · intro k ne
        exact (add_running_of_ne ne).trans (add_running_of_ne ne)
      · intro room run
        cases add_running_self.symm.trans run
        exact @kept_started players _ id { record with disabled := false } _ _ _ row rfl func

lemma Stored.stop (h : Stored players m) : Stored players (m.handleRoomStop id).1 := by
  unfold Manager.handleRoomStop
  split
  · exact h
  · refine h.of_room id ?_ ?_ (h.functional id) ?_
    · intro k ne
      exact sameAt_rooms ne
    · intro k ne
      exact remove_running_of_ne ne
    · intro room run
      cases remove_running_self.symm.trans run

lemma Stored.delete (h : Stored players m) : Stored players (m.handleRoomDelete id).1 := by
  unfold Manager.handleRoomDelete
  split
  · exact h
  · refine h.of_room id ?_ ?_ ?_ ?_
    · intro k ne
      exact sameAt_deleteRoom ne
    · intro k ne
      exact remove_running_of_ne ne
    · intro alt n n' mem
      have mem : (alt, n) ∈ Function.update m.store.altConnectNames id [] id := mem
      rw [Function.update_self] at mem
      cases mem
    · intro room run
      cases remove_running_self.symm.trans run

/-- A late death is in the table only, so it must not be one of a running room. -/
lemma Stored.lateDeath (h : Stored players m) {slot : ℤ}
    (clean : ∀ room, m.running id = some room → slot ∉ room.players.slots) :
    Stored players { m with store := m.store.incrementSlotDeathCount id slot } := by
  refine h.of_room id ?_ (fun k _ => rfl) (h.functional id) ?_
  · intro k ne
    exact sameAt_slotDeaths ne
  · intro room run
    have kept := h.kept id room run
    refine ⟨kept.record, kept.players_eq, kept.fullFeed, kept.tags, kept.limited, kept.names, ?_⟩
    intro s own
    have ne : s ≠ slot := by
      intro e
      exact clean room run (e ▸ own)
    show _ = (Function.update m.store.slotDeaths id _ id s).getD 0
    rw [Function.update_self, Function.update_of_ne ne]
    exact kept.counts s own

lemma Stored.restart (h : Stored players m) {up : List String} :
    Stored players
      { m with
        running := fun id => if id ∈ up then restarted players m.store id else none
        removed := [] } := by
  refine ⟨h.functional, ?_⟩
  intro id room run
  have run : (if id ∈ up then restarted players m.store id else none) = some room := run
  split at run
  · exact kept_restarted (h.functional id) run
  · cases run

/-! ## What earlier rooms leave -/

/-- The operation does not meet what an earlier room of the id has left: rows, where a room is uploaded, or
a connection, where a death comes late. -/
def Manager.Clean (players : String → RoomPlayers) (m : Manager) : RoomOp → Prop
  | .upload req apRoomId =>
    m.running (req.roomId apRoomId) = none → Fresh players m.store (req.roomId apRoomId) apRoomId
  | .lateDeath id slot =>
    id ∈ m.removed → ∀ room, m.running id = some room → slot ∉ room.players.slots
  | _ => True

/-- Once the room of an id was deleted, the next upload under it is clean. -/
lemma clean_upload_deleted {req : UploadRoomRequest} {ap : String} {record : RoomRecord}
    (hrow : m.store.rooms (req.roomId ap) = some record) :
    (m.handleRoomDelete (req.roomId ap)).1.Clean players (.upload req ap) := by
  intro _
  unfold Manager.handleRoomDelete
  rw [hrow]
  exact fresh_deleteRoom

/-- A clean operation keeps the rooms. -/
lemma Stored.step (h : Stored players m) {op : RoomOp} (clean : m.Clean players op) :
    Stored players (m.step players op).1 := by
  cases op with
  | upload req apRoomId => exact h.upload clean
  | start id req up => exact h.start
  | stop id => exact h.stop
  | kill id => exact h.stop
  | delete id => exact h.delete
  | fullFeed id slot method => exact h.withRoom handleFullFeedUser_keeps
  | bounceExclusion id slot tag method => exact h.withRoom handleBounceExclusions_keeps
  | slotBounceExclusion id slot method => exact h.withRoom handleSlotBounceExclusions_keeps
  | addAltName id altName slotName => exact h.withRoom handleAddAltName_keeps
  | removeAltName id altName => exact h.withRoom handleRemoveAltName_keeps
  | deathlinkProbability id probability => exact h.withRoom handleDeathlinkProbability_keeps
  | death id slot => exact h.withRoom countDeath_keeps
  | restart up => exact h.restart
  | lateDeath id slot =>
    simp only [Manager.step]
    split
    · rename_i lingers
      exact h.lateDeath (clean lingers)
    · exact h

/-- A room that a restart would not change is kept. -/
lemma SameSettings.kept {db : RoomStore} {room room' : HostedRoom} (same : SameSettings room room')
    (kept : Kept players db id room') (ap : room'.apRoomId = room.apRoomId)
    (dl : room'.deathlinkDisabled = room.deathlinkDisabled)
    (red : room'.reducedAccess = room.reducedAccess) : Kept players db id room := by
  have eq := same.players
  refine ⟨?_, ?_, ?_, ?_, ?_, ?_, ?_⟩
  · rw [← ap, ← dl, ← red, same.probability]
    exact kept.record
  · rw [← eq, ← ap]
    exact kept.players_eq
  · intro s own
    rw [same.fullFeed s own, ← red]
    exact kept.fullFeed s (eq ▸ own)
  · intro s own t
    rw [same.tags s own t, ← dl]
    exact kept.tags s (eq ▸ own) t
  · intro s own
    rw [same.limited s own]
    exact kept.limited s (eq ▸ own)
  · rw [same.names]
    exact kept.names
  · intro s own
    rw [same.counts s own]
    exact kept.counts s (eq ▸ own)

/-- After an upload a restart changes something, if there was something left. -/
lemma Stored.fresh_of_unchanged (h : Stored players m) {req : UploadRoomRequest} {ap : String}
    (unchanged : Unchanged players (m.handleUploadRoom players req ap).1)
    (idle : m.running (req.roomId ap) = none) : Fresh players m.store (req.roomId ap) ap := by
  rw [handleUploadRoom_fst, idle] at unchanged
  obtain ⟨room', back, same⟩ := unchanged (req.roomId ap) _ add_running_self
  have func : Functional ((m.store.save (req.roomId ap) ap req.perSlotPasswords
    req.deathlinkDisabled req.reducedAccess).altConnectNames (req.roomId ap)) := h.functional _
  have kept := kept_restarted func back
  apply fresh_of_kept
  obtain ⟨row, hrow, -, rfl⟩ := restarted_eq_some.1 back
  obtain ⟨row', hrow', apEq, -, dlEq, redEq, -⟩ := @save_row m.store (req.roomId ap) ap
    req.perSlotPasswords req.deathlinkDisabled req.reducedAccess
  cases hrow'.symm.trans hrow
  rw [HostedRoom.restore_eq] at kept same
  exact same.kept kept apEq dlEq redEq

/-- After a late death of a slot of the running room a restart changes its count. -/
lemma Stored.not_own_of_unchanged (h : Stored players m) {slot : ℤ}
    (unchanged : Unchanged players { m with store := m.store.incrementSlotDeathCount id slot })
    {room : HostedRoom} (run : m.running id = some room) : slot ∉ room.players.slots := by
  intro own
  obtain ⟨room', back, same⟩ := unchanged id room run
  have func : Functional ((m.store.incrementSlotDeathCount id slot).altConnectNames id) :=
    h.functional id
  have kept := kept_restarted func back
  have before := (h.kept id room run).counts slot own
  have after := kept.counts slot (same.players ▸ own)
  have stored : ((m.store.incrementSlotDeathCount id slot).slotDeaths id slot).getD 0 =
      (m.store.slotDeaths id slot).getD 0 + 1 := by
    show (Function.update m.store.slotDeaths id _ id slot).getD 0 = _
    rw [Function.update_self, Function.update_self]
    rfl
  rw [← same.counts slot own, before] at after
  have after : (m.store.slotDeaths id slot).getD 0 =
      ((m.store.incrementSlotDeathCount id slot).slotDeaths id slot).getD 0 := after
  omega

/-- An operation after which a restart changes nothing is clean. -/
lemma Stored.clean_of_unchanged (h : Stored players m) {op : RoomOp}
    (unchanged : Unchanged players (m.step players op).1) : m.Clean players op := by
  cases op with
  | upload req apRoomId => exact h.fresh_of_unchanged unchanged
  | lateDeath id slot =>
    intro lingers room run
    simp only [Manager.step, lingers, if_true] at unchanged
    exact h.not_own_of_unchanged unchanged run
  | _ => trivial

end

/-! ## Runs -/

/-- The manager after operations, the newest first: nothing is stored at the beginning. -/
def managerAfter (players : String → RoomPlayers) : List RoomOp → Manager
  | [] => ⟨⟨fun _ => none, fun _ => [], fun _ => [], fun _ => [], fun _ => [], fun _ _ => none⟩,
      fun _ => none, []⟩
  | op :: ops => ((managerAfter players ops).step players op).1

/-- Every operation is clean in the state it meets. -/
def AllClean (players : String → RoomPlayers) : List RoomOp → Prop
  | [] => True
  | op :: ops => AllClean players ops ∧ (managerAfter players ops).Clean players op

lemma stored_after {players : String → RoomPlayers} {ops : List RoomOp}
    (clean : AllClean players ops) : Stored players (managerAfter players ops) := by
  induction ops with
  | nil =>
    refine ⟨?_, ?_⟩
    · intro id alt n n' mem
      cases mem
    · intro id room run
      cases run
  | cons op ops ih => exact (ih clean.1).step clean.2

/-- In every state of a run a restart changes nothing, exactly if every operation of it is clean. -/
theorem restart_changes_nothing_iff (players : String → RoomPlayers) (ops : List RoomOp) :
    (∀ past, past <:+ ops → Unchanged players (managerAfter players past)) ↔
      AllClean players ops := by
  induction ops with
  | nil =>
    refine ⟨fun _ => trivial, ?_⟩
    intro clean past suffix
    rw [List.suffix_nil.1 suffix]
    exact (stored_after clean).unchanged
  | cons op ops ih =>
    constructor
    · intro unchanged
      have clean : AllClean players ops :=
        ih.1 fun past suffix => unchanged past (suffix.trans (List.suffix_cons op ops))
      refine ⟨clean, (stored_after clean).clean_of_unchanged ?_⟩
      exact unchanged (op :: ops) List.suffix_rfl
    · intro clean past suffix
      rcases List.suffix_cons_iff.1 suffix with rfl | suffix
      · exact (stored_after clean).unchanged
      · exact ih.2 clean.1 past suffix

def onePlayerEach : String → RoomPlayers := fun _ =>
  ⟨[1], fun name => if name = "Player" then some (0, 1) else none⟩

def lobbyUpload : UploadRoomRequest := ⟨"room", true, false, false⟩

/-- A room is uploaded, stopped and uploaded again. -/
def uploadedAgain : List RoomOp := [.upload lobbyUpload "ap2", .stop "room", .upload lobbyUpload "ap1"]

/-- The full feed is taken from the only slot. The room is stopped, its start enables it again but the
server's room does not come up, and a new room is uploaded. -/
def leftFullFeed : List RoomOp :=
  [.upload lobbyUpload "ap2", .start "room" ⟨none, none, none⟩ false, .stop "room",
    .fullFeed "room" 1 .delete, .upload lobbyUpload "ap1"]

/-- A death comes on a connection to a room that was stopped and started since. -/
def lateCount : List RoomOp :=
  [.lateDeath "room" 1, .start "room" ⟨none, none, none⟩ true, .stop "room",
    .upload lobbyUpload "ap1"]

/-- Three runs after which a restart changes something: the room that runs would not be started; its slot
would not have the full feed; a death would be counted. -/
theorem restart_changes :
    ((∃ room, (managerAfter onePlayerEach uploadedAgain).running "room" = some room) ∧
        restarted onePlayerEach (managerAfter onePlayerEach uploadedAgain).store "room" = none ∧
        ¬ Unchanged onePlayerEach (managerAfter onePlayerEach uploadedAgain)) ∧
      (∃ room room', (managerAfter onePlayerEach leftFullFeed).running "room" = some room ∧
        restarted onePlayerEach (managerAfter onePlayerEach leftFullFeed).store "room" = some room' ∧
        1 ∈ room.players.slots ∧ 1 ∈ room.fullFeed ∧ 1 ∉ room'.fullFeed) ∧
      ∃ room room', (managerAfter onePlayerEach lateCount).running "room" = some room ∧
        restarted onePlayerEach (managerAfter onePlayerEach lateCount).store "room" = some room' ∧
        1 ∈ room.players.slots ∧ room.bounceInfo.counts 1 = 0 ∧ room'.bounceInfo.counts 1 = 1 := by
  have again : ((managerAfter onePlayerEach uploadedAgain).running "room").isSome = true := by decide
  have none : (restarted onePlayerEach (managerAfter onePlayerEach uploadedAgain).store
      "room").isNone = true := by decide
  have feed : ((managerAfter onePlayerEach leftFullFeed).running "room").any (fun room =>
      (restarted onePlayerEach (managerAfter onePlayerEach leftFullFeed).store "room").any fun room' =>
        1 ∈ room.players.slots ∧ 1 ∈ room.fullFeed ∧ 1 ∉ room'.fullFeed) = true := by decide
  have count : ((managerAfter onePlayerEach lateCount).running "room").any (fun room =>
      (restarted onePlayerEach (managerAfter onePlayerEach lateCount).store "room").any fun room' =>
        1 ∈ room.players.slots ∧ room.bounceInfo.counts 1 = 0 ∧
          room'.bounceInfo.counts 1 = 1) = true := by decide
  refine ⟨⟨Option.isSome_iff_exists.1 again, Option.isNone_iff_eq_none.1 none, ?_⟩, ?_, ?_⟩
  · intro unchanged
    obtain ⟨room, run⟩ := Option.isSome_iff_exists.1 again
    obtain ⟨room', back, -⟩ := unchanged "room" room run
    rw [Option.isNone_iff_eq_none.1 none] at back
    cases back
  · obtain ⟨room, run, rest⟩ := (Option.any_eq_true _ _).1 feed
    obtain ⟨room', back, differ⟩ := (Option.any_eq_true _ _).1 rest
    exact ⟨room, room', run, back, of_decide_eq_true differ⟩
  · obtain ⟨room, run, rest⟩ := (Option.any_eq_true _ _).1 count
    obtain ⟨room', back, differ⟩ := (Option.any_eq_true _ _).1 rest
    exact ⟨room, room', run, back, of_decide_eq_true differ⟩

end ArchipelagoXL.Apx
