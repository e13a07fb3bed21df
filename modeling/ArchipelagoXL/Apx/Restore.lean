import ArchipelagoXL.Apx.Rooms

/-!
# Restoring a room

What `LoadAll`, `startNewHostedRoom` and the five restore functions make of the tables. `Kept` says, table
by table, that the settings a room has in memory are what the stored rows mean relative to the room's
defaults. A room that is built from the tables is kept (`kept_restarted`), and what is kept would be built
again (`Kept.unchanged`).
-/

namespace ArchipelagoXL.Apx

/-! ## Rows -/

section

variable {A : Type} [DecidableEq A]

lemma mem_insertOrIgnore {rows : List A} {a b : A} : b ∈ insertOrIgnore rows a ↔ b ∈ rows ∨ b = a := by
  unfold insertOrIgnore
  split
  · rename_i mem
    refine ⟨.inl, ?_⟩
    rintro (h | rfl)
    · exact h
    · exact mem
  · simp

omit [DecidableEq A] in
lemma mem_deleteWhere {rows : List A} {p : A → Bool} {b : A} :
    b ∈ deleteWhere rows p ↔ b ∈ rows ∧ p b = false := by
  simp [deleteWhere]

/-- A row that is written or deleted is there as it says, the others are as they were. -/
lemma mem_write {rows : List A} {a b : A} {keep : Bool} :
    b ∈ (if keep then insertOrIgnore rows a else deleteWhere rows fun x => decide (x = a)) ↔
      if b = a then keep = true else b ∈ rows := by
  by_cases e : b = a <;> cases keep <;> simp [mem_insertOrIgnore, mem_deleteWhere, e]

/-- A loop over rows that puts each in or takes it out. -/
lemma mem_foldl_override (keep : A → Bool) (rows : List A) (s : Finset A) (a : A) :
    a ∈ rows.foldl (fun s a => if keep a then insert a s else s.erase a) s ↔
      (a ∈ rows ∧ keep a = true) ∨ (a ∉ rows ∧ a ∈ s) := by
  induction rows generalizing s with
  | nil => simp
  | cons b rows ih =>
    rw [List.foldl_cons, ih]
    by_cases later : a ∈ rows
    · simp [later]
    · by_cases e : a = b
      · subst e
        cases h : keep a <;> simp [later]
      · cases h : keep b <;> simp [later, e]

end

/-- No alternative name stands for two slots. -/
def Functional (rows : List (String × String)) : Prop :=
  ∀ alt n n', (alt, n) ∈ rows → (alt, n') ∈ rows → n = n'

lemma setAltNames_of_not_mem {rows : List (String × String)} {names : String → Option String}
    {alt : String} (h : ∀ p ∈ rows, p.1 ≠ alt) : setAltNames rows names alt = names alt := by
  induction rows generalizing names with
  | nil => rfl
  | cons p rows ih =>
    rw [setAltNames, ih fun q hq => h q (List.mem_cons_of_mem _ hq),
      Function.update_of_ne (h p List.mem_cons_self).symm]

/-- The last row of a name is the one that counts. -/
lemma setAltNames_of_mem {rows : List (String × String)} {names : String → Option String}
    {alt n : String} (mem : (alt, n) ∈ rows) :
    ∃ n', (alt, n') ∈ rows ∧ setAltNames rows names alt = some n' := by
  induction rows generalizing names n with
  | nil => cases mem
  | cons p rows ih =>
    by_cases later : ∃ n', (alt, n') ∈ rows
    · obtain ⟨n', mem'⟩ := later
      obtain ⟨n'', mem'', eq⟩ := ih mem'
      exact ⟨n'', List.mem_cons_of_mem _ mem'', eq⟩
    · have none : ∀ q ∈ rows, q.1 ≠ alt := by
        intro q hq e
        exact later ⟨q.2, e ▸ hq⟩
      rcases List.mem_cons.1 mem with rfl | mem
      · refine ⟨n, List.mem_cons_self, ?_⟩
        rw [setAltNames, setAltNames_of_not_mem none, Function.update_self]
      · exact absurd ⟨n, mem⟩ later

/-- Where no name stands for two slots, what is loaded is what is stored. -/
lemma setAltNames_iff {rows : List (String × String)} (func : Functional rows) {alt n : String} :
    setAltNames rows (fun _ => none) alt = some n ↔ (alt, n) ∈ rows := by
  constructor
  · intro eq
    by_contra notin
    by_cases some : ∃ n', (alt, n') ∈ rows
    · obtain ⟨n', mem⟩ := some
      obtain ⟨n'', mem', eq'⟩ := setAltNames_of_mem mem
      rw [eq'] at eq
      cases eq
      exact notin mem'
    · have none : ∀ q ∈ rows, q.1 ≠ alt := fun q hq e => some ⟨q.2, e ▸ hq⟩
      rw [setAltNames_of_not_mem none] at eq
      cases eq
  · intro mem
    obtain ⟨n', mem', eq⟩ := setAltNames_of_mem mem
    rw [eq, func alt n' n mem' mem]

/-! ## Restored rooms -/

lemma foldl_setExcluded {keep : ℤ × String → Bool} {rows : List (ℤ × String)} {b : BounceInfo} :
    rows.foldl (fun b p => b.setExcluded p.1 p.2 (keep p)) b =
      { b with
        excludedByTag :=
          rows.foldl (fun s p => if keep p then insert p s else s.erase p) b.excludedByTag } := by
  induction rows generalizing b with
  | nil => rfl
  | cons p rows ih => rw [List.foldl_cons, ih, List.foldl_cons, BounceInfo.setExcluded]

lemma foldl_setLimited {rows : List ℤ} {b : BounceInfo} :
    rows.foldl (fun b slot => b.setLimited slot true) b =
      { b with
        ownSlotOnly :=
          rows.foldl (fun s slot => if true then insert slot s else s.erase slot) b.ownSlotOnly } := by
  induction rows generalizing b with
  | nil => rfl
  | cons slot rows ih => rw [List.foldl_cons, ih, List.foldl_cons, BounceInfo.setLimited]

lemma restoreFullFeedSlots_eq {rows : List ℤ} {room : HostedRoom} :
    room.restoreFullFeedSlots rows =
      { room with
        fullFeed := rows.foldl (fun s slot => if room.reducedAccess then insert slot s else s.erase slot)
          room.fullFeed } := by
  induction rows generalizing room with
  | nil => rfl
  | cons slot rows ih =>
    show (room.setFullFeed slot room.reducedAccess).restoreFullFeedSlots rows = _
    rw [ih, List.foldl_cons, HostedRoom.setFullFeed]

/-- A restored room, table by table. -/
lemma HostedRoom.restore_eq (room : HostedRoom) (db : RoomStore) (id : String) :
    room.restore db id =
      { room with
        bounceInfo :=
          { counts := fun slot => (db.slotDeaths id slot).getD (room.bounceInfo.counts slot)
            deathlinkProbability := room.bounceInfo.deathlinkProbability
            excludedByTag := (db.bounceTagExclusions id).foldl (fun s p =>
              if !(p.2 = "DeathLink" && room.deathlinkDisabled) then insert p s else s.erase p)
              room.bounceInfo.excludedByTag
            ownSlotOnly := (db.slotBounceExclusions id).foldl (fun s slot =>
              if true then insert slot s else s.erase slot) room.bounceInfo.ownSlotOnly }
        fullFeed := (db.fullFeed id).foldl (fun s slot =>
          if room.reducedAccess then insert slot s else s.erase slot) room.fullFeed
        altConnectNames := setAltNames (db.altConnectNames id) room.altConnectNames } := by
  rw [HostedRoom.restore, restoreFullFeedSlots_eq, HostedRoom.restoreSlotBounceExclusions,
    HostedRoom.restoreBounceTagExclusions, foldl_setExcluded, foldl_setLimited]
  rfl

@[simp] lemma HostedRoom.restore_players (room : HostedRoom) (db : RoomStore) (id : String) :
    (room.restore db id).players = room.players := by
  rw [HostedRoom.restore_eq]

/-- The defaults and the probability are not restored: they come from the row. -/
lemma HostedRoom.restore_record (room : HostedRoom) (db : RoomStore) (id : String) :
    (room.restore db id).apRoomId = room.apRoomId ∧
      (room.restore db id).deathlinkDisabled = room.deathlinkDisabled ∧
      (room.restore db id).reducedAccess = room.reducedAccess ∧
      (room.restore db id).bounceInfo.deathlinkProbability = room.bounceInfo.deathlinkProbability := by
  rw [HostedRoom.restore_eq]
  exact ⟨rfl, rfl, rfl, rfl⟩

lemma mem_restored_fullFeed {room : HostedRoom} {db : RoomStore} {id : String} {s : ℤ} :
    s ∈ (room.restore db id).fullFeed ↔
      (s ∈ db.fullFeed id ∧ room.reducedAccess = true) ∨ (s ∉ db.fullFeed id ∧ s ∈ room.fullFeed) := by
  rw [HostedRoom.restore_eq]
  exact mem_foldl_override (fun _ => room.reducedAccess) (db.fullFeed id) room.fullFeed s

lemma mem_restored_excluded {room : HostedRoom} {db : RoomStore} {id : String} {p : ℤ × String} :
    p ∈ (room.restore db id).bounceInfo.excludedByTag ↔
      (p ∈ db.bounceTagExclusions id ∧ ¬ (p.2 = "DeathLink" ∧ room.deathlinkDisabled = true)) ∨
        (p ∉ db.bounceTagExclusions id ∧ p ∈ room.bounceInfo.excludedByTag) := by
  have loop := mem_foldl_override (fun p => !(p.2 = "DeathLink" && room.deathlinkDisabled))
    (db.bounceTagExclusions id) room.bounceInfo.excludedByTag p
  rw [HostedRoom.restore_eq]
  simpa only [Bool.not_eq_true', ← Bool.not_eq_true, Bool.and_eq_true, decide_eq_true_eq] using loop

lemma mem_restored_limited {room : HostedRoom} {db : RoomStore} {id : String} {s : ℤ} :
    s ∈ (room.restore db id).bounceInfo.ownSlotOnly ↔
      s ∈ db.slotBounceExclusions id ∨ s ∈ room.bounceInfo.ownSlotOnly := by
  have loop := mem_foldl_override (fun _ => true) (db.slotBounceExclusions id)
    room.bounceInfo.ownSlotOnly s
  rw [HostedRoom.restore_eq]
  refine loop.trans ?_
  tauto

/-- The full feed that a new room starts with. -/
lemma mem_newFullFeed {players : String → RoomPlayers} {ap : String} {per dl red : Bool} {p : ℚ}
    {s : ℤ} : s ∈ (newHostedRoom players ap per dl red p).fullFeed ↔
      red = false ∧ s ∈ (players ap).slots := by
  have loop : s ∈ (players ap).slots.foldl (fun s slot => insert slot s) (∅ : Finset ℤ) ↔
      s ∈ (players ap).slots := by
    have := mem_foldl_override (fun _ => true) (players ap).slots ∅ s
    simpa using this
  cases red <;> simp [newHostedRoom, loop]

/-- The tags that a new room starts with. -/
lemma mem_newExcluded {players : String → RoomPlayers} {ap : String} {per dl red : Bool} {p : ℚ}
    {s : ℤ} {t : String} :
    (s, t) ∈ (newHostedRoom players ap per dl red p).bounceInfo.excludedByTag ↔
      (dl = true ∧ t = "DeathLink") ∧ s ∈ (players ap).slots := by
  have loop : ∀ (l : List ℤ) (f : Finset (ℤ × String)),
      (s, t) ∈ l.foldl (fun f slot => insert (slot, "DeathLink") f) f ↔
        (t = "DeathLink" ∧ s ∈ l) ∨ (s, t) ∈ f := by
    intro l
    induction l with
    | nil => simp
    | cons slot l ih =>
      intro f
      rw [List.foldl_cons, ih]
      simp only [Finset.mem_insert, Prod.mk.injEq, List.mem_cons]
      tauto
  cases dl <;> simp [newHostedRoom, loop]

/-! ## What is stored and what it means -/

/-- The settings in memory are what the stored rows say, relative to the defaults of the room. -/
structure Kept (players : String → RoomPlayers) (db : RoomStore) (id : String) (room : HostedRoom) :
    Prop where
  record : ∃ row, db.rooms id = some row ∧ row.disabled = false ∧ row.apRoomId = room.apRoomId ∧
    row.deathlinkDisabled = room.deathlinkDisabled ∧ row.reducedAccess = room.reducedAccess ∧
    row.deathlinkProbability = room.bounceInfo.deathlinkProbability
  players_eq : room.players = players room.apRoomId
  fullFeed : ∀ s ∈ room.players.slots,
    s ∈ room.fullFeed ↔ (s ∈ db.fullFeed id ↔ room.reducedAccess = true)
  tags : ∀ s ∈ room.players.slots, ∀ t, (s, t) ∈ room.bounceInfo.excludedByTag ↔
    ((s, t) ∈ db.bounceTagExclusions id ↔ ¬ (t = "DeathLink" ∧ room.deathlinkDisabled = true))
  limited : ∀ s ∈ room.players.slots,
    s ∈ room.bounceInfo.ownSlotOnly ↔ s ∈ db.slotBounceExclusions id
  names : ∀ alt n, room.altConnectNames alt = some n ↔ (alt, n) ∈ db.altConnectNames id
  counts : ∀ s ∈ room.players.slots, room.bounceInfo.counts s = (db.slotDeaths id s).getD 0

lemma Kept.functional {players : String → RoomPlayers} {db : RoomStore} {id : String}
    {room : HostedRoom} (h : Kept players db id room) : Functional (db.altConnectNames id) := by
  intro alt n n' mem mem'
  have eq := (h.names alt n).2 mem
  rw [(h.names alt n').2 mem'] at eq
  exact (Option.some.inj eq).symm

lemma restarted_eq_some {players : String → RoomPlayers} {db : RoomStore} {id : String}
    {room : HostedRoom} : restarted players db id = some room ↔
      ∃ row, db.rooms id = some row ∧ row.disabled = false ∧
        (newHostedRoom players row.apRoomId row.perSlotPasswords row.deathlinkDisabled
          row.reducedAccess row.deathlinkProbability).restore db id = room := by
  rw [restarted]
  cases hrow : db.rooms id with
  | none => simp
  | some row => cases h : row.disabled <;> simp [h]

/-- What is loaded from the tables is kept. -/
lemma kept_restore {players : String → RoomPlayers} {db : RoomStore} {id : String} {row : RoomRecord}
    (func : Functional (db.altConnectNames id)) (hrow : db.rooms id = some row)
    (enabled : row.disabled = false) :
    Kept players db id ((newHostedRoom players row.apRoomId row.perSlotPasswords row.deathlinkDisabled
      row.reducedAccess row.deathlinkProbability).restore db id) := by
  have loaded := HostedRoom.restore_record (newHostedRoom players row.apRoomId row.perSlotPasswords
    row.deathlinkDisabled row.reducedAccess row.deathlinkProbability) db id
  obtain ⟨ap, dl, red, prob⟩ := loaded
  refine ⟨⟨row, hrow, enabled, ap.symm, dl.symm, red.symm, prob.symm⟩, ?_, ?_, ?_, ?_, ?_, ?_⟩
  · rw [HostedRoom.restore_players, ap]
    rfl
  · intro s own
    rw [HostedRoom.restore_players] at own
    have own : s ∈ (players row.apRoomId).slots := own
    rw [mem_restored_fullFeed, mem_newFullFeed, red]
    show (_ ∧ row.reducedAccess = true) ∨ _ ↔ (_ ↔ row.reducedAccess = true)
    by_cases stored : s ∈ db.fullFeed id <;> simp [stored, own]
  · intro s own t
    rw [HostedRoom.restore_players] at own
    have own : s ∈ (players row.apRoomId).slots := own
    rw [mem_restored_excluded, mem_newExcluded, dl]
    show (_ ∧ ¬ (t = "DeathLink" ∧ row.deathlinkDisabled = true)) ∨ _ ↔
      (_ ↔ ¬ (t = "DeathLink" ∧ row.deathlinkDisabled = true))
    by_cases stored : (s, t) ∈ db.bounceTagExclusions id
    · simp only [stored, true_and, not_true_eq_false, false_and, or_false, true_iff]
    · simp [stored, own, and_comm]
  · intro s own
    rw [mem_restored_limited]
    simp [newHostedRoom]
  · intro alt n
    rw [HostedRoom.restore_eq]
    exact setAltNames_iff func
  · intro s own
    rw [HostedRoom.restore_eq]
    rfl

/-- A restarted room is kept. -/
lemma kept_restarted {players : String → RoomPlayers} {db : RoomStore} {id : String}
    {room : HostedRoom} (func : Functional (db.altConnectNames id))
    (h : restarted players db id = some room) : Kept players db id room := by
  obtain ⟨row, hrow, enabled, rfl⟩ := restarted_eq_some.1 h
  exact kept_restore func hrow enabled

/-- Two rooms have the same settings for their own slots. -/
structure SameSettings (room room' : HostedRoom) : Prop where
  players : room'.players = room.players
  fullFeed : ∀ s ∈ room.players.slots, s ∈ room.fullFeed ↔ s ∈ room'.fullFeed
  tags : ∀ s ∈ room.players.slots, ∀ t,
    (s, t) ∈ room.bounceInfo.excludedByTag ↔ (s, t) ∈ room'.bounceInfo.excludedByTag
  limited : ∀ s ∈ room.players.slots,
    s ∈ room.bounceInfo.ownSlotOnly ↔ s ∈ room'.bounceInfo.ownSlotOnly
  names : room.altConnectNames = room'.altConnectNames
  probability : room.bounceInfo.deathlinkProbability = room'.bounceInfo.deathlinkProbability
  counts : ∀ s ∈ room.players.slots, room.bounceInfo.counts s = room'.bounceInfo.counts s

/-- A restart would give every running room the settings that it has. -/
def Unchanged (players : String → RoomPlayers) (m : Manager) : Prop :=
  ∀ id room, m.running id = some room →
    ∃ room', restarted players m.store id = some room' ∧ SameSettings room room'

/-- What is kept comes back. -/
lemma Kept.unchanged {players : String → RoomPlayers} {db : RoomStore} {id : String}
    {room : HostedRoom} (h : Kept players db id room) :
    ∃ room', restarted players db id = some room' ∧ SameSettings room room' := by
  obtain ⟨row, hrow, enabled, ap, dl, red, prob⟩ := h.record
  refine ⟨_, restarted_eq_some.2 ⟨row, hrow, enabled, rfl⟩, ?_⟩
  have kept := @kept_restore players db id row h.functional hrow enabled
  rw [HostedRoom.restore_eq] at kept ⊢
  have eq : players row.apRoomId = room.players := by
    rw [h.players_eq, ap]
  have own : (players row.apRoomId).slots = room.players.slots := by
    rw [eq]
  refine ⟨eq, ?_, ?_, ?_, ?_, prob.symm, ?_⟩
  · intro s hs
    rw [h.fullFeed s hs, kept.fullFeed s (own ▸ hs)]
    show _ ↔ (_ ↔ row.reducedAccess = true)
    rw [red]
  · intro s hs t
    rw [h.tags s hs t, kept.tags s (own ▸ hs) t]
    show _ ↔ (_ ↔ ¬ (_ ∧ row.deathlinkDisabled = true))
    rw [dl]
  · intro s hs
    rw [h.limited s hs, kept.limited s (own ▸ hs)]
  · funext alt
    apply Option.ext
    intro n
    rw [h.names alt n, kept.names alt n]
  · intro s hs
    rw [h.counts s hs, kept.counts s (own ▸ hs)]

end ArchipelagoXL.Apx
