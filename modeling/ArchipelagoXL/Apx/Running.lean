import ArchipelagoXL.Apx.Restart

/-!
# Which rooms come back

The rooms that run and the rows that are not disabled. Where every operation succeeds they are the same
rooms, so that the next start of the process brings back what ran, and nothing is stored of a room
that was deleted. Again there are two exceptions: an upload under the id of a room that was stopped
runs under a row that stays disabled, and a DeathLink on a connection to a room that was
deleted leaves a row of its own. `rooms_come_back_iff` says that there are no others.
-/

namespace ArchipelagoXL.Apx

/-- `LoadAll` finds the room. -/
def RoomStore.Enabled (db : RoomStore) (id : String) : Prop :=
  ∃ row, db.rooms id = some row ∧ row.disabled = false

/-- The running rooms are those that `LoadAll` finds. -/
def ComesBack (m : Manager) : Prop := ∀ id, (m.running id).isSome ↔ m.store.Enabled id

/-- No table has a row for the room. -/
structure Forgotten (db : RoomStore) (id : String) : Prop where
  rooms : db.rooms id = none
  fullFeed : db.fullFeed id = []
  slotBounceExclusions : db.slotBounceExclusions id = []
  bounceTagExclusions : db.bounceTagExclusions id = []
  altConnectNames : db.altConnectNames id = []
  slotDeaths : ∀ slot, db.slotDeaths id slot = none

/-- The room was deleted, and not uploaded since. -/
def Deleted : List RoomOp → String → Prop
  | [], _ => False
  | .delete id' :: ops, id => id' = id ∨ Deleted ops id
  | .upload req apRoomId :: ops, id => req.roomId apRoomId ≠ id ∧ Deleted ops id
  | _ :: ops, id => Deleted ops id

/-- The operation succeeds; after a restart, every room that was found came up. -/
def Manager.Succeeds (players : String → RoomPlayers) (m : Manager) (op : RoomOp) : Prop :=
  (m.step players op).2 = none ∧ ∀ up, op = .restart up → ∀ id, m.store.Enabled id → id ∈ up

def AllSucceed (players : String → RoomPlayers) : List RoomOp → Prop
  | [] => True
  | op :: ops => AllSucceed players ops ∧ (managerAfter players ops).Succeeds players op

/-- No room is uploaded under a disabled row, and no death comes to a deleted room. -/
def NoneLeft (players : String → RoomPlayers) : List RoomOp → Prop
  | [] => True
  | op :: ops =>
    NoneLeft players ops ∧
      (∀ req apRoomId, op = .upload req apRoomId → ∀ row,
        (managerAfter players ops).store.rooms (req.roomId apRoomId) = some row → row.disabled = false) ∧
      ∀ id slot, op = .lateDeath id slot → ¬ Deleted ops id

/-! ## The room that an operation is about -/

/-- A restart is about all rooms. -/
def RoomOp.room : RoomOp → Option String
  | .upload req apRoomId => some (req.roomId apRoomId)
  | .start id _ _ | .stop id | .kill id | .delete id => some id
  | .fullFeed id _ _ | .bounceExclusion id _ _ _ | .slotBounceExclusion id _ _ => some id
  | .addAltName id _ _ | .removeAltName id _ | .deathlinkProbability id _ => some id
  | .death id _ | .lateDeath id _ => some id
  | .restart _ => none

section

variable {players : String → RoomPlayers} {m : Manager} {id k : String}

/-- A request that leaves the other rooms as they are, and the room as enabled as it was. -/
def Frames (id : String) (f : HostedRoom → RoomStore → Except String (HostedRoom × RoomStore)) : Prop :=
  ∀ room db room' db', f room db = .ok (room', db') →
    (∀ k, k ≠ id → SameAt db db' k) ∧ (db'.Enabled id ↔ db.Enabled id)

lemma handleFullFeedUser_frames {slot : ℤ} {method : Method} :
    Frames id fun room db => .ok (handleFullFeedUser id slot method room db) := by
  intro room db room' db' eq
  have eq := Except.ok.inj eq
  rw [handleFullFeedUser_eq] at eq
  cases eq
  exact ⟨fun k ne => sameAt_fullFeed ne, Iff.rfl⟩

lemma handleBounceExclusions_frames {slot : ℤ} {tag : String} {method : Method} :
    Frames id (handleBounceExclusions id slot tag method) := by
  intro room db room' db' eq
  rw [handleBounceExclusions_eq] at eq
  split at eq
  · cases eq
  · cases eq
    exact ⟨fun k ne => sameAt_bounceTags ne, Iff.rfl⟩

lemma handleSlotBounceExclusions_frames {slot : ℤ} {method : Method} :
    Frames id fun room db => .ok (handleSlotBounceExclusions id slot method room db) := by
  intro room db room' db' eq
  cases method with
  | post =>
    cases eq
    exact ⟨fun k ne => sameAt_slotBounces ne, Iff.rfl⟩
  | delete =>
    cases eq
    exact ⟨fun k ne => sameAt_slotBounces ne, Iff.rfl⟩

lemma handleAddAltName_ok {altName slotName : String} {room room' : HostedRoom} {db db' : RoomStore}
    (h : handleAddAltName id altName slotName room db = .ok (room', db')) :
    room.players.auth slotName ≠ none ∧ room.players.auth altName = none ∧
      room.altConnectNames altName = none ∧
      room' = { room with
        altConnectNames := Function.update room.altConnectNames altName (some slotName) } ∧
      db' = db.addAltConnectName id altName slotName := by
  unfold handleAddAltName at h
  split at h
  · cases h
  split at h
  · cases h
  split at h
  · cases h
  split at h
  · split at h <;> cases h
  · rename_i known real _ unused
    cases h
    exact ⟨known, by simpa using real, unused, rfl, rfl⟩

lemma handleAddAltName_frames {altName slotName : String} :
    Frames id (handleAddAltName id altName slotName) := by
  intro room db room' db' eq
  obtain ⟨-, -, -, -, rfl⟩ := handleAddAltName_ok eq
  exact ⟨fun k ne => sameAt_altNames ne, Iff.rfl⟩

lemma handleRemoveAltName_frames {altName : String} :
    Frames id fun room db => .ok (handleRemoveAltName id altName room db) := by
  intro room db room' db' eq
  cases eq
  exact ⟨fun k ne => sameAt_altNames ne, Iff.rfl⟩

/-- An update of a row that does not touch `disabled`. -/
lemma enabled_updateRoom {db : RoomStore} {f : RoomRecord → RoomRecord}
    (keeps : ∀ row, (f row).disabled = row.disabled) :
    (db.updateRoom id f).Enabled id ↔ db.Enabled id := by
  unfold RoomStore.Enabled RoomStore.updateRoom
  simp only [Function.update_self, Option.map_eq_some_iff]
  constructor
  · rintro ⟨_, ⟨row, hrow, rfl⟩, enabled⟩
    exact ⟨row, hrow, keeps row ▸ enabled⟩
  · rintro ⟨row, hrow, enabled⟩
    exact ⟨f row, ⟨row, hrow, rfl⟩, (keeps row).trans enabled⟩

lemma handleDeathlinkProbability_frames {probability : ℚ} :
    Frames id (handleDeathlinkProbability id probability) := by
  intro room db room' db' eq
  unfold handleDeathlinkProbability at eq
  split at eq
  · cases eq
  · cases eq
    exact ⟨fun k ne => sameAt_rooms ne, enabled_updateRoom fun _ => rfl⟩

lemma countDeath_frames {slot : ℤ} :
    Frames id fun room db => .ok (countDeath id slot room db) := by
  intro room db room' db' eq
  cases eq
  exact ⟨fun k ne => sameAt_slotDeaths ne, Iff.rfl⟩

/-- The rooms that a request is not about. -/
lemma withRoom_frame {f : HostedRoom → RoomStore → Except String (HostedRoom × RoomStore)}
    (frames : Frames id f) (ne : k ≠ id) :
    SameAt m.store (m.withRoom id f).1.store k ∧ (m.withRoom id f).1.running k = m.running k := by
  unfold Manager.withRoom
  split
  · exact ⟨.refl, rfl⟩
  · split
    · exact ⟨.refl, rfl⟩
    · rename_i room' db' eq
      exact ⟨(frames _ _ _ _ eq).1 k ne, add_running_of_ne ne⟩

/-- The room that a request is about runs and is enabled as before. -/
lemma withRoom_own {f : HostedRoom → RoomStore → Except String (HostedRoom × RoomStore)}
    (frames : Frames id f) :
    ((m.withRoom id f).1.running id).isSome = (m.running id).isSome ∧
      ((m.withRoom id f).1.store.Enabled id ↔ m.store.Enabled id) := by
  unfold Manager.withRoom
  cases run : m.running id with
  | none => exact ⟨by rw [run], Iff.rfl⟩
  | some room =>
    dsimp only
    split
    · exact ⟨by rw [run], Iff.rfl⟩
    · rename_i room' db' eq
      refine ⟨?_, (frames _ _ _ _ eq).2⟩
      rw [add_running_self]
      rfl

lemma withRoom_idle {f : HostedRoom → RoomStore → Except String (HostedRoom × RoomStore)}
    (idle : m.running id = none) : (m.withRoom id f).1 = m := by
  unfold Manager.withRoom
  rw [idle]

/-- A start is about one room. -/
lemma handleRoomStart_frame {req : RoomStartRequest} {up : Bool} (ne : k ≠ id) :
    SameAt m.store (m.handleRoomStart players id req up).1.store k ∧
      (m.handleRoomStart players id req up).1.running k = m.running k := by
  unfold Manager.handleRoomStart
  split
  · exact ⟨.refl, rfl⟩
  · exact ⟨.refl, rfl⟩
  · rename_i record idle hrow
    have prepared : SameAt m.store ((m.store.dropStale id record req).enable id record) k :=
      (sameAt_dropStale ne).trans (sameAt_enable ne)
    cases up with
    | false => exact ⟨prepared, rfl⟩
    | true =>
      simp only [Manager.startNewHostedRoom, idle, if_true]
      exact ⟨prepared.trans (sameAt_rooms ne), (add_running_of_ne ne).trans (add_running_of_ne ne)⟩

/-- An operation leaves the rooms alone that it is not about. -/
lemma step_frame {op : RoomOp} {id : String} (about : op.room = some id) (ne : k ≠ id) :
    SameAt m.store (m.step players op).1.store k ∧
      (m.step players op).1.running k = m.running k := by
  cases op with
  | upload req apRoomId =>
    cases about
    simp only [Manager.step]
    rw [handleUploadRoom_fst]
    split
    · exact ⟨.refl, rfl⟩
    · exact ⟨sameAt_rooms ne, add_running_of_ne ne⟩
  | start id' req up =>
    cases about
    exact handleRoomStart_frame ne
  | stop id' | kill id' =>
    cases about
    simp only [Manager.step, Manager.handleRoomStop]
    split
    · exact ⟨.refl, rfl⟩
    · exact ⟨sameAt_rooms ne, remove_running_of_ne ne⟩
  | delete id' =>
    cases about
    simp only [Manager.step, Manager.handleRoomDelete]
    split
    · exact ⟨.refl, rfl⟩
    · exact ⟨sameAt_deleteRoom ne, remove_running_of_ne ne⟩
  | fullFeed id' slot method =>
    cases about
    exact withRoom_frame handleFullFeedUser_frames ne
  | bounceExclusion id' slot tag method =>
    cases about
    exact withRoom_frame handleBounceExclusions_frames ne
  | slotBounceExclusion id' slot method =>
    cases about
    exact withRoom_frame handleSlotBounceExclusions_frames ne
  | addAltName id' altName slotName =>
    cases about
    exact withRoom_frame handleAddAltName_frames ne
  | removeAltName id' altName =>
    cases about
    exact withRoom_frame handleRemoveAltName_frames ne
  | deathlinkProbability id' probability =>
    cases about
    exact withRoom_frame handleDeathlinkProbability_frames ne
  | death id' slot =>
    cases about
    exact withRoom_frame countDeath_frames ne
  | lateDeath id' slot =>
    cases about
    simp only [Manager.step]
    split
    · exact ⟨sameAt_slotDeaths ne, rfl⟩
    · exact ⟨.refl, rfl⟩
  | restart up => cases about

/-- Of the operations on a room that neither runs nor has a row, only an upload and a late death do
anything. -/
lemma step_absent {op : RoomOp} (about : op.room = some id) (idle : m.running id = none)
    (absent : m.store.rooms id = none) (upload : ∀ req apRoomId, op ≠ .upload req apRoomId)
    (late : ∀ id slot, op ≠ .lateDeath id slot) : (m.step players op).1 = m := by
  cases op with
  | upload req apRoomId => exact absurd rfl (upload req apRoomId)
  | lateDeath id' slot => exact absurd rfl (late id' slot)
  | start id' req up =>
    cases about
    simp only [Manager.step, Manager.handleRoomStart, idle, absent]
  | stop id' | kill id' =>
    cases about
    simp only [Manager.step, Manager.handleRoomStop, idle]
  | delete id' =>
    cases about
    simp only [Manager.step, Manager.handleRoomDelete, absent]
  | fullFeed id' slot method | bounceExclusion id' slot tag method
  | slotBounceExclusion id' slot method | addAltName id' altName slotName
  | removeAltName id' altName | deathlinkProbability id' probability | death id' slot =>
    cases about
    exact withRoom_idle idle
  | restart up => cases about

lemma sameAt_enabled {db db' : RoomStore} (same : SameAt db db' id) : db'.Enabled id ↔ db.Enabled id := by
  unfold RoomStore.Enabled
  rw [same.rooms]

lemma Forgotten.congr {db db' : RoomStore} (h : Forgotten db id) (same : SameAt db db' id) :
    Forgotten db' id := by
  refine ⟨?_, ?_, ?_, ?_, ?_, ?_⟩
  · exact same.rooms.trans h.rooms
  · exact same.fullFeed.trans h.fullFeed
  · exact same.slotBounceExclusions.trans h.slotBounceExclusions
  · exact same.bounceTagExclusions.trans h.bounceTagExclusions
  · exact same.altConnectNames.trans h.altConnectNames
  · rw [same.slotDeaths]
    exact h.slotDeaths

lemma forgotten_deleteRoom {db : RoomStore} : Forgotten (db.deleteRoom id) id := by
  refine ⟨?_, ?_, ?_, ?_, ?_, ?_⟩
  · exact Function.update_self ..
  · exact Function.update_self ..
  · exact Function.update_self ..
  · exact Function.update_self ..
  · exact Function.update_self ..
  · intro slot
    exact congrFun (Function.update_self id (fun _ => none) db.slotDeaths) slot

/-! ## What runs and what is enabled -/

/-- A successful upload finds no room of its id. -/
lemma upload_idle {req : UploadRoomRequest} {ap : String}
    (succeeds : (m.handleUploadRoom players req ap).2 = none) : m.running (req.roomId ap) = none := by
  unfold Manager.handleUploadRoom Manager.startNewHostedRoom at succeeds
  cases run : m.running (req.roomId ap) with
  | none => rfl
  | some room =>
    rw [run] at succeeds
    cases succeeds

/-- Its room runs, and its row is enabled if that of the earlier room was. -/
lemma upload_own {req : UploadRoomRequest} {ap : String}
    (succeeds : (m.handleUploadRoom players req ap).2 = none) :
    ((m.handleUploadRoom players req ap).1.running (req.roomId ap)).isSome ∧
      ((m.handleUploadRoom players req ap).1.store.Enabled (req.roomId ap) ↔
        ∀ row, m.store.rooms (req.roomId ap) = some row → row.disabled = false) := by
  rw [handleUploadRoom_fst, upload_idle succeeds]
  refine ⟨by simp, ?_⟩
  obtain ⟨row, hrow, -, -, -, -, old⟩ := @save_row m.store (req.roomId ap) ap req.perSlotPasswords
    req.deathlinkDisabled req.reducedAccess
  constructor
  · rintro ⟨row', hrow', enabled⟩ r hr
    cases hrow.symm.trans hrow'
    rcases old with ⟨none, -⟩ | ⟨r', hr', eq, -⟩
    · rw [none] at hr
      cases hr
    · cases hr.symm.trans hr'
      exact eq ▸ enabled
  · intro clean
    refine ⟨row, hrow, ?_⟩
    rcases old with ⟨-, enabled, -⟩ | ⟨r, hr, eq, -⟩
    · exact enabled
    · rw [eq]
      exact clean r hr

/-- After a successful start the room runs and is enabled. -/
lemma start_own {req : RoomStartRequest} {up : Bool}
    (succeeds : (m.handleRoomStart players id req up).2 = none) :
    ((m.handleRoomStart players id req up).1.running id).isSome ∧
      (m.handleRoomStart players id req up).1.store.Enabled id := by
  unfold Manager.handleRoomStart at succeeds ⊢
  split at succeeds
  · cases succeeds
  · cases succeeds
  · rename_i record idle hrow
    cases up with
    | false => cases succeeds
    | true =>
      simp only [Manager.startNewHostedRoom, idle, if_true]
      refine ⟨by simp, ?_⟩
      have row : ((m.store.dropStale id record req).enable id record).rooms id =
          some { record with disabled := false } := by
        apply enable_row
        rw [dropStale_rooms.1, hrow]
      obtain ⟨saved, hsaved, -, -, -, -, old⟩ :=
        @save_row ((m.store.dropStale id record req).enable id record) id record.apRoomId
          (req.perSlotPasswords.getD record.perSlotPasswords)
          (req.deathlinkDisabled.getD record.deathlinkDisabled)
          (req.reducedAccess.getD record.reducedAccess)
      refine ⟨saved, hsaved, ?_⟩
      rcases old with ⟨none, -⟩ | ⟨r, hr, eq, -⟩
      · rw [none] at row
        cases row
      · cases row.symm.trans hr
        exact eq

lemma stop_own (succeeds : (m.handleRoomStop id).2 = none) :
    (m.handleRoomStop id).1.running id = none ∧ ¬ (m.handleRoomStop id).1.store.Enabled id := by
  unfold Manager.handleRoomStop at succeeds ⊢
  cases run : m.running id with
  | none =>
    rw [run] at succeeds
    cases succeeds
  | some room =>
    refine ⟨remove_running_self, ?_⟩
    rintro ⟨row, hrow, enabled⟩
    have hrow : Function.update m.store.rooms id _ id = some row := hrow
    rw [Function.update_self, Option.map_eq_some_iff] at hrow
    obtain ⟨old, -, rfl⟩ := hrow
    cases enabled

lemma delete_own (succeeds : (m.handleRoomDelete id).2 = none) :
    (m.handleRoomDelete id).1.running id = none ∧ Forgotten (m.handleRoomDelete id).1.store id := by
  unfold Manager.handleRoomDelete at succeeds ⊢
  cases hrow : m.store.rooms id with
  | none =>
    rw [hrow] at succeeds
    cases succeeds
  | some row => exact ⟨remove_running_self, forgotten_deleteRoom⟩

lemma not_enabled {db : RoomStore} (absent : db.rooms id = none) : ¬ db.Enabled id := by
  rintro ⟨row, hrow, -⟩
  rw [absent] at hrow
  cases hrow

/-- The room that a successful operation is about. -/
lemma ComesBack.own (h : ComesBack m) {op : RoomOp} (about : op.room = some id)
    (succeeds : (m.step players op).2 = none)
    (clean : ∀ req apRoomId, op = .upload req apRoomId → ∀ row,
      m.store.rooms (req.roomId apRoomId) = some row → row.disabled = false) :
    ((m.step players op).1.running id).isSome ↔ (m.step players op).1.store.Enabled id := by
  have same : ∀ {f}, Frames id f →
      (((m.withRoom id f).1.running id).isSome ↔ (m.withRoom id f).1.store.Enabled id) := by
    intro f frames
    obtain ⟨runs, enabled⟩ := withRoom_own (m := m) frames
    rw [runs, enabled]
    exact h id
  cases op with
  | upload req apRoomId =>
    cases about
    obtain ⟨runs, enabled⟩ := upload_own succeeds
    exact iff_of_true runs (enabled.2 (clean req apRoomId rfl))
  | start id' req up =>
    cases about
    obtain ⟨runs, enabled⟩ := start_own succeeds
    exact iff_of_true runs enabled
  | stop id' | kill id' =>
    cases about
    obtain ⟨idle, disabled⟩ := stop_own succeeds
    refine iff_of_false ?_ disabled
    rw [Manager.step, idle]
    exact Bool.false_ne_true
  | delete id' =>
    cases about
    obtain ⟨idle, forgotten⟩ := delete_own succeeds
    refine iff_of_false ?_ (not_enabled forgotten.rooms)
    rw [Manager.step, idle]
    exact Bool.false_ne_true
  | fullFeed id' slot method =>
    cases about
    exact same handleFullFeedUser_frames
  | bounceExclusion id' slot tag method =>
    cases about
    exact same handleBounceExclusions_frames
  | slotBounceExclusion id' slot method =>
    cases about
    exact same handleSlotBounceExclusions_frames
  | addAltName id' altName slotName =>
    cases about
    exact same handleAddAltName_frames
  | removeAltName id' altName =>
    cases about
    exact same handleRemoveAltName_frames
  | deathlinkProbability id' probability =>
    cases about
    exact same handleDeathlinkProbability_frames
  | death id' slot =>
    cases about
    exact same countDeath_frames
  | lateDeath id' slot =>
    cases about
    simp only [Manager.step]
    split
    · exact h _
    · exact h _
  | restart up => cases about

/-- A successful operation keeps the rooms that run and those that are enabled the same. -/
lemma ComesBack.step (h : ComesBack m) {op : RoomOp} (succeeds : m.Succeeds players op)
    (clean : ∀ req apRoomId, op = .upload req apRoomId → ∀ row,
      m.store.rooms (req.roomId apRoomId) = some row → row.disabled = false) :
    ComesBack (m.step players op).1 := by
  intro k
  cases about : op.room with
  | none =>
    cases op with
    | restart up =>
      -- each row that is found is one of a room that came up
      show (if k ∈ up then restarted players m.store k else none).isSome ↔ m.store.Enabled k
      constructor
      · intro some
        split at some
        · obtain ⟨room, back⟩ := Option.isSome_iff_exists.1 some
          obtain ⟨row, hrow, enabled, -⟩ := restarted_eq_some.1 back
          exact ⟨row, hrow, enabled⟩
        · cases some
      · intro enabled
        rw [if_pos (succeeds.2 up rfl k enabled)]
        obtain ⟨row, hrow, enabled⟩ := enabled
        rw [restarted_eq_some.2 ⟨row, hrow, enabled, rfl⟩]
        rfl
    | _ => cases about
  | some id =>
    by_cases e : k = id
    · rw [e]
      exact h.own about succeeds.1 clean
    · obtain ⟨same, runs⟩ := @step_frame players m k op id about e
      rw [runs, sameAt_enabled same]
      exact h k

/-- A room that is forgotten stays so, until it is uploaded or a death comes late. -/
lemma Forgotten.step (h : ComesBack m) (forgotten : Forgotten m.store k) {op : RoomOp}
    (upload : ∀ req apRoomId, op = .upload req apRoomId → req.roomId apRoomId ≠ k)
    (late : ∀ slot, op ≠ .lateDeath k slot) : Forgotten (m.step players op).1.store k := by
  cases about : op.room with
  | none =>
    cases op with
    | restart up => exact forgotten
    | _ => cases about
  | some id =>
    by_cases e : k = id
    · subst e
      have idle : m.running k = none := by
        by_contra some
        exact not_enabled forgotten.rooms ((h k).1 (Option.isSome_iff_ne_none.2 some))
      rw [step_absent about idle forgotten.rooms]
      · exact forgotten
      · rintro req apRoomId rfl
        exact upload req apRoomId rfl (Option.some.inj about)
      · rintro id slot rfl
        cases about
        exact late slot rfl
    · exact forgotten.congr (step_frame about e).1

end

section

variable {players : String → RoomPlayers}

/-- What holds after successful operations that leave nothing. -/
lemma matched_after {ops : List RoomOp} (succeed : AllSucceed players ops)
    (clean : NoneLeft players ops) :
    ComesBack (managerAfter players ops) ∧
      ∀ id, Deleted ops id → Forgotten (managerAfter players ops).store id := by
  induction ops with
  | nil =>
    refine ⟨?_, fun id deleted => deleted.elim⟩
    intro id
    refine iff_of_false Bool.false_ne_true ?_
    exact not_enabled rfl
  | cons op ops ih =>
    obtain ⟨comes, forgets⟩ := ih succeed.1 clean.1
    refine ⟨comes.step succeed.2 clean.2.1, ?_⟩
    intro id deleted
    cases op with
    | delete id' =>
      by_cases e : id' = id
      · subst e
        exact (delete_own succeed.2.1).2
      · refine (forgets id (deleted.resolve_left e)).step comes ?_ ?_
        · intro req ap eq
          cases eq
        · intro slot eq
          cases eq
    | upload req apRoomId =>
      refine (forgets id deleted.2).step comes ?_ ?_
      · intro req ap eq
        cases eq
        exact deleted.1
      · intro slot eq
        cases eq
    | lateDeath id' slot =>
      refine (forgets id deleted).step comes ?_ ?_
      · intro req ap eq
        cases eq
      · intro slot' eq
        cases eq
        exact clean.2.2 id slot rfl deleted
    | _ =>
      refine (forgets id deleted).step comes ?_ ?_
      · intro req ap eq
        cases eq
      · intro slot eq
        cases eq

/-- In every state of a run of successful operations the rooms that run are those that `LoadAll` finds,
and no table has a row of a deleted room, exactly if nothing is uploaded under a disabled row and no
death comes to a deleted room. -/
theorem rooms_come_back_iff {ops : List RoomOp} (succeed : AllSucceed players ops) :
    (∀ past, past <:+ ops → ComesBack (managerAfter players past) ∧
        ∀ id, Deleted past id → Forgotten (managerAfter players past).store id) ↔
      NoneLeft players ops := by
  induction ops with
  | nil =>
    refine ⟨fun _ => trivial, ?_⟩
    intro clean past suffix
    rw [List.suffix_nil.1 suffix]
    exact matched_after trivial clean
  | cons op ops ih =>
    constructor
    · intro matched
      have clean : NoneLeft players ops :=
        (ih succeed.1).1 fun past suffix => matched past (suffix.trans (List.suffix_cons op ops))
      obtain ⟨comes, forgets⟩ := matched (op :: ops) List.suffix_rfl
      refine ⟨clean, ?_, ?_⟩
      · rintro req apRoomId rfl
        obtain ⟨runs, enabled⟩ := upload_own succeed.2.1
        exact enabled.1 ((comes _).1 runs)
      · rintro id slot rfl deleted
        -- the death has left a row
        have gone := (forgets id deleted).slotDeaths slot
        have late := succeed.2.1
        simp only [managerAfter, Manager.step] at gone late
        split at gone
        · have gone : Function.update (managerAfter players ops).store.slotDeaths id _ id slot = none :=
            gone
          rw [Function.update_self, Function.update_self] at gone
          cases gone
        · rename_i known
          rw [if_neg known] at late
          cases late
    · intro clean past suffix
      rcases List.suffix_cons_iff.1 suffix with rfl | suffix
      · exact matched_after succeed clean
      · exact (ih succeed.1).2 clean.1 past suffix

end

/-- A room is uploaded, stopped and started, deleted, and uploaded again. -/
def cleanLife : List RoomOp :=
  [.upload lobbyUpload "ap2", .delete "room", .start "room" ⟨none, none, none⟩ true, .stop "room",
    .upload lobbyUpload "ap1"]

theorem cleanLife_comes_back :
    AllSucceed onePlayerEach cleanLife ∧ ∀ past, past <:+ cleanLife →
      ComesBack (managerAfter onePlayerEach past) ∧
        ∀ id, Deleted past id → Forgotten (managerAfter onePlayerEach past).store id := by
  have succeed : AllSucceed onePlayerEach cleanLife := by
    refine ⟨⟨⟨⟨⟨trivial, ?_⟩, ?_⟩, ?_⟩, ?_⟩, ?_⟩
    all_goals
      refine ⟨by decide, ?_⟩
      intro up eq
      cases eq
  refine ⟨succeed, (rooms_come_back_iff succeed).2 ?_⟩
  refine ⟨⟨⟨⟨⟨trivial, ?_⟩, ?_⟩, ?_⟩, ?_⟩, ?_⟩
  all_goals
    refine ⟨?_, ?_⟩
    · intro req ap eq row hrow
      cases eq <;> cases hrow
    · intro id slot eq
      cases eq

/-- A death comes on a connection to a room that was deleted. -/
def deathAfterDelete : List RoomOp := [.lateDeath "room" 1, .delete "room", .upload lobbyUpload "ap1"]

/-- A room that runs under a disabled row, and a row of a deleted room. -/
theorem rooms_do_not_come_back :
    (AllSucceed onePlayerEach uploadedAgain ∧
        ((managerAfter onePlayerEach uploadedAgain).running "room").isSome ∧
        ¬ ComesBack (managerAfter onePlayerEach uploadedAgain)) ∧
      AllSucceed onePlayerEach deathAfterDelete ∧ Deleted deathAfterDelete "room" ∧
        (managerAfter onePlayerEach deathAfterDelete).store.slotDeaths "room" 1 = some 1 ∧
        ¬ Forgotten (managerAfter onePlayerEach deathAfterDelete).store "room" := by
  have runs : ((managerAfter onePlayerEach uploadedAgain).running "room").isSome = true := by decide
  have disabled : ((managerAfter onePlayerEach uploadedAgain).store.rooms "room").any
      (·.disabled) = true := by decide
  have row : (managerAfter onePlayerEach deathAfterDelete).store.slotDeaths "room" 1 = some 1 := by
    decide
  refine ⟨⟨?_, runs, ?_⟩, ?_, .inl rfl, row, ?_⟩
  · refine ⟨⟨⟨trivial, ?_⟩, ?_⟩, ?_⟩
    all_goals
      refine ⟨by decide, ?_⟩
      intro up eq
      cases eq
  · intro comes
    obtain ⟨r, hr, enabled⟩ := (comes "room").1 runs
    rw [hr, Option.any_some, enabled] at disabled
    cases disabled
  · refine ⟨⟨⟨trivial, ?_⟩, ?_⟩, ?_⟩
    all_goals
      refine ⟨by decide, ?_⟩
      intro up eq
      cases eq
  · intro forgotten
    rw [forgotten.slotDeaths 1] at row
    cases row

end ArchipelagoXL.Apx
