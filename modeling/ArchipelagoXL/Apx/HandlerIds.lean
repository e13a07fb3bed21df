import Mathlib

/-!
# The ids of handlers

A running room of `apx` is reached through two handlers, each under an id of its own (`apx/api.go`).
`AllocateAndRegisterHandlerPair` keeps the ids that a room had before where it can, and searches the range
from a random place for those that are missing (`allocate_spec`). What a search does to the pair of ids
is stated for any part of the range (`Ids.Fills`), which the turns of its loop extend one by one.

A room is started under ids that are free and gives them back when it is removed, so that the table of
handlers belongs to the running rooms (`handler_ids_belong_to_rooms`). Calls are whole here; what a start
leaves behind that fails after it has taken its ids is not the subject of this module.
-/

namespace ArchipelagoXL.Apx

/-- Go `apxHandler`: the room that it serves, by address, in which of the two ways, and its id. -/
structure ApxHandler where
  server : ℕ
  reduced : Bool
  id : ℤ
deriving DecidableEq

/-- What the registry knows of a running room (Go `HostedRoom`). -/
structure StartedRoom where
  lobbyRoomId : String
  apx : ℕ
  normalHandler : ApxHandler
  reducedHandler : ApxHandler
deriving DecidableEq

/-- Go `RoomRegistry`, less its datapackages. -/
structure RoomRegistry where
  rooms : String → Option StartedRoom
  idToHandler : ℤ → Option ApxHandler

/-- The registry of a new process. -/
def RoomRegistry.new : RoomRegistry := ⟨fun _ => none, fun _ => none⟩

/-- Go `roomMinID`. -/
def roomMinID : ℤ := 10000

/-- Go `roomMaxID`. -/
def roomMaxID : ℤ := 50000

/-- Go `rangeSize`. -/
def rangeSize : ℕ := 40001

/-! ## Allocating -/

/-- The two entries of `ids` and how many were found; 0 is no id. -/
structure Ids where
  normal : ℤ
  reduced : ℤ
  found : ℕ
deriving DecidableEq

/-- The local function `tryAllocate`. -/
def RoomRegistry.tryAllocate (r : RoomRegistry) (id : ℤ) : Bool :=
  if id < roomMinID ∨ id > roomMaxID then false else (r.idToHandler id).isNone

/-- The old id of the normal handler is tried. -/
def RoomRegistry.tryNormal (r : RoomRegistry) (id : ℤ) (ids : Ids) : Ids :=
  if id ≠ 0 ∧ r.tryAllocate id = true then { ids with normal := id, found := ids.found + 1 } else ids

/-- The old id of the reduced handler is tried. -/
def RoomRegistry.tryReduced (r : RoomRegistry) (id : ℤ) (ids : Ids) : Ids :=
  if id ≠ 0 ∧ id ≠ ids.normal ∧ r.tryAllocate id = true then
    { ids with reduced := id, found := ids.found + 1 }
  else ids

/-- The ids before the search. -/
def RoomRegistry.keepIds (r : RoomRegistry) (normalId reducedId : ℤ) : Ids :=
  r.tryReduced reducedId (r.tryNormal normalId ⟨0, 0, 0⟩)

/-- The body of the search. -/
def RoomRegistry.fillTurn (r : RoomRegistry) (ids : Ids) (id : ℤ) : Ids :=
  if ids.found < 2 then
    if id = ids.normal ∨ id = ids.reduced then ids
    else if (r.idToHandler id).isSome then ids
    else if ids.normal = 0 then { ids with normal := id, found := ids.found + 1 }
    else { ids with reduced := id, found := ids.found + 1 }
  else ids

/-- The search: from a random place once around the range. -/
def RoomRegistry.fill (r : RoomRegistry) (draw : ℕ) (ids : Ids) : Ids :=
  if ids.found < 2 then
    (List.range rangeSize).foldl
      (fun ids i => r.fillTurn ids (roomMinID + ((draw + i) % rangeSize : ℕ))) ids
  else ids

/-- What is there after a call: the registry, the two handlers, and perhaps an error. -/
structure Allocated where
  registry : RoomRegistry
  normal : ApxHandler
  reduced : ApxHandler
  err : Option String

/-- Go `AllocateAndRegisterHandlerPair`, with the number that was drawn. -/
def RoomRegistry.allocateAndRegisterHandlerPair (r : RoomRegistry) (normal reduced : ApxHandler)
    (draw : ℕ) : Allocated :=
  let ids := r.fill draw (r.keepIds normal.id reduced.id)
  if ids.normal = 0 ∨ ids.reduced = 0 then
    ⟨r, normal, reduced, some "no available Id pair in range [10000, 50000]"⟩
  else
    let normal := { normal with id := ids.normal }
    let reduced := { reduced with id := ids.reduced }
    { registry :=
        { r with
          idToHandler := Function.update (Function.update r.idToHandler ids.normal (some normal))
            ids.reduced (some reduced) }
      normal := normal
      reduced := reduced
      err := none }

/-! ## Starting and removing -/

/-- Go `Add`. -/
def RoomRegistry.add (r : RoomRegistry) (room : StartedRoom) : Except String RoomRegistry :=
  match r.rooms room.lobbyRoomId with
  | some _ => .error ("room already exists: " ++ room.lobbyRoomId)
  | none => .ok { r with rooms := Function.update r.rooms room.lobbyRoomId (some room) }

/-- What Go `startNewHostedRoom` does to the registry, for the room at an address. -/
def RoomRegistry.startNewHostedRoom (r : RoomRegistry) (lobbyRoomId : String) (apx : ℕ)
    (normalIdPtr reducedIdPtr : Option ℤ) (draw : ℕ) : Except String RoomRegistry :=
  match r.rooms lobbyRoomId with
  | some _ => .error ("room already exists: " ++ lobbyRoomId)
  | none =>
    let a := r.allocateAndRegisterHandlerPair ⟨apx, false, normalIdPtr.getD 0⟩
      ⟨apx, true, reducedIdPtr.getD 0⟩ draw
    match a.err with
    | some err => .error ("allocating handler IDs: " ++ err)
    | none => a.registry.add ⟨lobbyRoomId, apx, a.normal, a.reduced⟩

/-- Go `Remove`, less the release of the room's datapackages. -/
def RoomRegistry.remove (r : RoomRegistry) (roomId : String) : RoomRegistry where
  rooms := Function.update r.rooms roomId none
  idToHandler :=
    match r.rooms roomId with
    | none => r.idToHandler
    | some room =>
      Function.update (Function.update r.idToHandler room.normalHandler.id none)
        room.reducedHandler.id none

/-- The states that starts which succeed and removals lead to. -/
inductive RegistryReached : RoomRegistry → Prop where
  | new : RegistryReached .new
  | start {r r' : RoomRegistry} {lobbyRoomId : String} {apx : ℕ} {normalIdPtr reducedIdPtr : Option ℤ}
      {draw : ℕ} (reached : RegistryReached r)
      (ok : r.startNewHostedRoom lobbyRoomId apx normalIdPtr reducedIdPtr draw = .ok r') :
      RegistryReached r'
  | remove {r : RoomRegistry} (reached : RegistryReached r) (roomId : String) :
      RegistryReached (r.remove roomId)

/-! ## What a search finds -/

/-- An id that can be taken. -/
def RoomRegistry.Free (r : RoomRegistry) (id : ℤ) : Prop :=
  roomMinID ≤ id ∧ id ≤ roomMaxID ∧ r.idToHandler id = none

instance (r : RoomRegistry) (id : ℤ) : Decidable (r.Free id) :=
  inferInstanceAs (Decidable (roomMinID ≤ id ∧ id ≤ roomMaxID ∧ r.idToHandler id = none))

/-- The ids that can be taken. -/
noncomputable def RoomRegistry.freeIds (r : RoomRegistry) : Finset ℤ :=
  (Finset.Icc roomMinID roomMaxID).filter fun id => r.idToHandler id = none

lemma RoomRegistry.mem_freeIds {r : RoomRegistry} {id : ℤ} : id ∈ r.freeIds ↔ r.Free id := by
  rw [RoomRegistry.freeIds, Finset.mem_filter, Finset.mem_Icc, and_assoc]
  rfl

lemma RoomRegistry.tryAllocate_iff {r : RoomRegistry} {id : ℤ} :
    r.tryAllocate id = true ↔ r.Free id := by
  unfold RoomRegistry.tryAllocate RoomRegistry.Free
  split
  · rename_i h
    constructor
    · intro f
      cases f
    · rintro ⟨h1, h2, -⟩
      omega
  · rename_i h
    rw [Option.isNone_iff_eq_none]
    exact ⟨fun f => ⟨by omega, by omega, f⟩, fun f => f.2.2⟩

lemma RoomRegistry.Free.ne_zero {r : RoomRegistry} {id : ℤ} (h : r.Free id) : id ≠ 0 := by
  have low : roomMinID ≤ id := h.1
  rw [roomMinID] at low
  omega

/-- The ids found so far are free and different, and their number is right. -/
structure Ids.Sound (ids : Ids) (r : RoomRegistry) : Prop where
  normal : ids.normal = 0 ∨ r.Free ids.normal
  reduced : ids.reduced = 0 ∨ r.Free ids.reduced
  apart : ids.normal ≠ 0 → ids.normal ≠ ids.reduced
  found : ids.found = (if ids.normal = 0 then 0 else 1) + if ids.reduced = 0 then 0 else 1

/-- A search leaves the ids that it begins with, and ends only with a pair or when there is nothing left
to take in the part of the range that it went through. -/
structure Ids.Fills (after before : Ids) (r : RoomRegistry) (part : ℤ → Prop) : Prop where
  sound : after.Sound r
  normal : before.normal ≠ 0 → after.normal = before.normal
  reduced : before.reduced ≠ 0 → after.reduced = before.reduced
  full : after.found < 2 → ∀ id, part id → r.Free id → id = after.normal ∨ id = after.reduced

lemma Ids.Fills.refl {ids : Ids} {r : RoomRegistry} (h : ids.Sound r) :
    ids.Fills ids r fun _ => False :=
  ⟨h, fun _ => rfl, fun _ => rfl, fun _ _ h => h.elim⟩

/-- More is never fewer. -/
lemma Ids.Fills.found_le {after before : Ids} {r : RoomRegistry} {part : ℤ → Prop}
    (h : after.Fills before r part) (sound : before.Sound r) : before.found ≤ after.found := by
  rw [sound.found, h.sound.found]
  have normal := h.normal
  have reduced := h.reduced
  split <;> split <;> split <;> split <;> simp_all

/-- One search after the other goes through both parts. -/
lemma Ids.Fills.trans {a b c : Ids} {r : RoomRegistry} {part part' : ℤ → Prop} (first : b.Fills a r part)
    (second : c.Fills b r part') : c.Fills a r fun id => part id ∨ part' id := by
  refine ⟨second.sound, ?_, ?_, ?_⟩
  · intro h
    have kept := first.normal h
    rw [second.normal (kept ▸ h), kept]
  · intro h
    have kept := first.reduced h
    rw [second.reduced (kept ▸ h), kept]
  · intro few id hid free
    rcases hid with hid | hid
    · have fewer := second.found_le first.sound
      have zero := free.ne_zero
      rcases first.full (by omega) id hid free with e | e
      · exact Or.inl (by rw [second.normal (e ▸ zero), e])
      · exact Or.inr (by rw [second.reduced (e ▸ zero), e])
    · exact second.full few id hid free

/-- A turn of the search deals with its id. -/
lemma RoomRegistry.fillTurn_fills {r : RoomRegistry} {ids : Ids} (h : ids.Sound r) {id : ℤ}
    (low : roomMinID ≤ id) (high : id ≤ roomMaxID) :
    (r.fillTurn ids id).Fills ids r fun i => i = id := by
  have found := h.found
  unfold RoomRegistry.fillTurn
  split
  · rename_i few
    split
    · rename_i mine
      exact ⟨h, fun _ => rfl, fun _ => rfl, fun _ i hi _ => hi ▸ mine⟩
    · rename_i other
      rw [not_or] at other
      split
      · rename_i used
        refine ⟨h, fun _ => rfl, fun _ => rfl, fun _ i hi free => ?_⟩
        rw [← hi, free.2.2] at used
        cases used
      · rename_i unused
        have free : r.Free id := ⟨low, high, by simpa using unused⟩
        have zero := free.ne_zero
        split
        · rename_i vacant
          refine ⟨⟨Or.inr free, h.reduced, fun _ => other.2, ?_⟩, fun taken => absurd vacant taken,
            fun _ => rfl, fun _ i hi _ => Or.inl hi⟩
          show ids.found + 1 = (if id = 0 then 0 else 1) + if ids.reduced = 0 then 0 else 1
          rw [if_pos vacant] at found
          rw [if_neg zero]
          omega
        · rename_i taken
          rw [if_neg taken] at found
          have vacant : ids.reduced = 0 := by
            by_contra e
            rw [if_neg e] at found
            omega
          refine ⟨⟨h.normal, Or.inr free, fun _ => Ne.symm other.1, ?_⟩, fun _ => rfl,
            fun taken => absurd vacant taken, fun _ i hi _ => Or.inr hi⟩
          show ids.found + 1 = (if ids.normal = 0 then 0 else 1) + if id = 0 then 0 else 1
          rw [if_pos vacant] at found
          rw [if_neg taken, if_neg zero]
          omega
  · rename_i many
    exact ⟨h, fun _ => rfl, fun _ => rfl, fun few => absurd few many⟩

/-- The loop of the search deals with all its ids. -/
lemma RoomRegistry.foldl_fillTurn {r : RoomRegistry} {ids : Ids} (h : ids.Sound r) (walk : ℕ → ℤ)
    (inside : ∀ i, roomMinID ≤ walk i ∧ walk i ≤ roomMaxID) (n : ℕ) :
    ((List.range n).foldl (fun ids i => r.fillTurn ids (walk i)) ids).Fills ids r
      fun id => ∃ i < n, id = walk i := by
  induction n with
  | zero =>
    have refl := Ids.Fills.refl h
    exact ⟨h, refl.normal, refl.reduced, fun _ id hid => by
      obtain ⟨i, hi, -⟩ := hid
      exact absurd hi (Nat.not_lt_zero i)⟩
  | succ n ih =>
    rw [List.range_succ, List.foldl_append, List.foldl_cons, List.foldl_nil]
    have turn := ih.trans (r.fillTurn_fills ih.sound (inside n).1 (inside n).2)
    refine ⟨turn.sound, turn.normal, turn.reduced, ?_⟩
    rintro few id ⟨i, hi, e⟩ free
    apply turn.full few id _ free
    rcases Nat.lt_succ_iff_lt_or_eq.mp hi with hi | rfl
    · exact Or.inl ⟨i, hi, e⟩
    · exact Or.inr e

/-- The search goes through the whole range, wherever it begins. -/
lemma walk_covers (draw : ℕ) {id : ℤ} (low : roomMinID ≤ id) (high : id ≤ roomMaxID) :
    ∃ i < rangeSize, id = roomMinID + ((draw + i) % rangeSize : ℕ) := by
  unfold roomMinID at *
  unfold roomMaxID at *
  unfold rangeSize
  obtain ⟨k, hk⟩ := Int.eq_ofNat_of_zero_le (show 0 ≤ id - 10000 by omega)
  refine ⟨(k + 40001 - draw % 40001) % 40001, Nat.mod_lt _ (by omega), ?_⟩
  have bound : k < 40001 := by omega
  have place : (draw + (k + 40001 - draw % 40001) % 40001) % 40001 = k := by omega
  rw [place]
  omega

/-- What `fill` does. -/
lemma RoomRegistry.fill_fills {r : RoomRegistry} {ids : Ids} (h : ids.Sound r) (draw : ℕ) :
    (r.fill draw ids).Fills ids r fun id => roomMinID ≤ id ∧ id ≤ roomMaxID := by
  unfold RoomRegistry.fill
  split
  · have inside : ∀ i : ℕ, roomMinID ≤ roomMinID + ((draw + i) % rangeSize : ℕ) ∧
        roomMinID + ((draw + i) % rangeSize : ℕ) ≤ roomMaxID := by
      intro i
      unfold roomMinID roomMaxID rangeSize
      omega
    have loop := RoomRegistry.foldl_fillTurn h _ inside rangeSize
    refine ⟨loop.sound, loop.normal, loop.reduced, ?_⟩
    intro few id hid free
    exact loop.full few id (walk_covers draw hid.1 hid.2) free
  · rename_i many
    exact ⟨h, fun _ => rfl, fun _ => rfl, fun few => absurd few many⟩

/-- Before the search: an old id that is free is kept, by the normal handler if both ask for it. -/
lemma RoomRegistry.keepIds_sound (r : RoomRegistry) (normalId reducedId : ℤ) :
    (r.keepIds normalId reducedId).Sound r ∧
      (r.Free normalId → (r.keepIds normalId reducedId).normal = normalId) ∧
      (r.Free reducedId → reducedId ≠ normalId →
        (r.keepIds normalId reducedId).reduced = reducedId) := by
  have first : r.tryNormal normalId ⟨0, 0, 0⟩ =
      if r.Free normalId then ⟨normalId, 0, 1⟩ else ⟨0, 0, 0⟩ := by
    unfold RoomRegistry.tryNormal
    split
    · rename_i h
      rw [if_pos (RoomRegistry.tryAllocate_iff.mp h.2)]
    · rename_i h
      rw [if_neg]
      exact fun free => h ⟨free.ne_zero, RoomRegistry.tryAllocate_iff.mpr free⟩
  unfold RoomRegistry.keepIds
  rw [first]
  unfold RoomRegistry.tryReduced
  split
  · rename_i free
    have zero := free.ne_zero
    split
    · rename_i h
      have free' := RoomRegistry.tryAllocate_iff.mp h.2.2
      refine ⟨⟨Or.inr free, Or.inr free', fun _ => Ne.symm h.2.1, ?_⟩, fun _ => rfl, fun _ _ => rfl⟩
      show 2 = (if normalId = 0 then 0 else 1) + if reducedId = 0 then 0 else 1
      rw [if_neg zero, if_neg h.1]
    · rename_i h
      refine ⟨⟨Or.inr free, Or.inl rfl, fun _ => zero, ?_⟩, fun _ => rfl, fun free' ne => ?_⟩
      · show 1 = (if normalId = 0 then 0 else 1) + if (0 : ℤ) = 0 then 0 else 1
        rw [if_neg zero, if_pos rfl]
      · exact absurd ⟨free'.ne_zero, ne, RoomRegistry.tryAllocate_iff.mpr free'⟩ h
  · rename_i used
    split
    · rename_i h
      have free' := RoomRegistry.tryAllocate_iff.mp h.2.2
      refine ⟨⟨Or.inl rfl, Or.inr free', fun ne => absurd rfl ne, ?_⟩, fun free => absurd free used,
        fun _ _ => rfl⟩
      show 1 = (if (0 : ℤ) = 0 then 0 else 1) + if reducedId = 0 then 0 else 1
      rw [if_pos rfl, if_neg h.1]
    · rename_i h
      refine ⟨⟨Or.inl rfl, Or.inl rfl, fun ne => absurd rfl ne, rfl⟩, fun free => absurd free used,
        fun free' _ => ?_⟩
      have zero := free'.ne_zero
      exact absurd ⟨zero, zero, RoomRegistry.tryAllocate_iff.mpr free'⟩ h

/-! ## What an allocation does -/

/-- An allocation fails, and then changes nothing, exactly if there are not two free ids; otherwise the two
handlers are filed under two of them, which are their old ones where these are free. -/
structure Allocated.Correct (a : Allocated) (r : RoomRegistry) (normal reduced : ApxHandler) :
    Prop where
  fails : a.err.isSome ↔ r.freeIds.card < 2
  unchanged : a.err.isSome → a.registry = r ∧ a.normal = normal ∧ a.reduced = reduced
  free : a.err = none → a.normal.id ∈ r.freeIds ∧ a.reduced.id ∈ r.freeIds
  apart : a.err = none → a.normal.id ≠ a.reduced.id
  handlers : a.err = none →
    a.normal = { normal with id := a.normal.id } ∧ a.reduced = { reduced with id := a.reduced.id }
  filed : a.err = none →
    a.registry.rooms = r.rooms ∧
      a.registry.idToHandler =
        Function.update (Function.update r.idToHandler a.normal.id (some a.normal)) a.reduced.id
          (some a.reduced)
  keepsNormal : a.err = none → normal.id ∈ r.freeIds → a.normal.id = normal.id
  keepsReduced : a.err = none → reduced.id ∈ r.freeIds → reduced.id ≠ normal.id →
    a.reduced.id = reduced.id

/-- What the allocator does, for every registry, every pair of old ids and every draw. -/
lemma allocate_spec (r : RoomRegistry) (normal reduced : ApxHandler) (draw : ℕ) :
    (r.allocateAndRegisterHandlerPair normal reduced draw).Correct r normal reduced := by
  obtain ⟨sound, keepNormal, keepReduced⟩ := r.keepIds_sound normal.id reduced.id
  have search := RoomRegistry.fill_fills sound draw
  unfold RoomRegistry.allocateAndRegisterHandlerPair
  generalize r.fill draw (r.keepIds normal.id reduced.id) = ids at search
  have found := search.sound.found
  show Allocated.Correct (if ids.normal = 0 ∨ ids.reduced = 0 then _ else _) r normal reduced
  split
  · rename_i missing
    have few : ids.found < 2 := by
      rw [found]
      rcases missing with e | e
      · rw [if_pos e]
        split <;> omega
      · rw [if_pos e]
        split <;> omega
    have card : r.freeIds.card < 2 := by
      apply Nat.lt_succ_of_le
      apply Finset.card_le_one.mpr
      intro x hx y hy
      have hx := RoomRegistry.mem_freeIds.mp hx
      have hy := RoomRegistry.mem_freeIds.mp hy
      have ex := search.full few x ⟨hx.1, hx.2.1⟩ hx
      have ey := search.full few y ⟨hy.1, hy.2.1⟩ hy
      have zx := hx.ne_zero
      have zy := hy.ne_zero
      omega
    refine ⟨⟨fun _ => card, fun _ => rfl⟩, fun _ => ⟨rfl, rfl, rfl⟩, ?_, ?_, ?_, ?_, ?_, ?_⟩ <;>
      intro e <;> cases e
  · rename_i both
    rw [not_or] at both
    have normalFree := search.sound.normal.resolve_left both.1
    have reducedFree := search.sound.reduced.resolve_left both.2
    have apart := search.sound.apart both.1
    have memNormal := RoomRegistry.mem_freeIds.mpr normalFree
    have memReduced := RoomRegistry.mem_freeIds.mpr reducedFree
    have card : 1 < r.freeIds.card := Finset.one_lt_card.mpr ⟨_, memNormal, _, memReduced, apart⟩
    refine ⟨⟨fun e => (by cases e), fun few => (by omega)⟩, fun e => (by cases e),
      fun _ => ⟨memNormal, memReduced⟩, fun _ => apart, fun _ => ⟨rfl, rfl⟩, fun _ => ⟨rfl, rfl⟩, ?_, ?_⟩
    · intro _ mem
      have free := RoomRegistry.mem_freeIds.mp mem
      have kept := keepNormal free
      have zero := free.ne_zero
      exact (search.normal (by rwa [kept])).trans kept
    · intro _ mem ne
      have free := RoomRegistry.mem_freeIds.mp mem
      have kept := keepReduced free ne
      have zero := free.ne_zero
      exact (search.reduced (by rwa [kept])).trans kept

/-! ## The table belongs to the running rooms -/

/-- The handler of a room that is reduced, or the one that is not. -/
def StartedRoom.handler (room : StartedRoom) (reduced : Bool) : ApxHandler :=
  if reduced then room.reducedHandler else room.normalHandler

/-- The table has the handlers of the running rooms, each under its id, and nothing else; the ids are
different and in the range. -/
structure RoomRegistry.Tidy (r : RoomRegistry) : Prop where
  entries : ∀ id h, r.idToHandler id = some h ↔
    ∃ lobby room reduced, r.rooms lobby = some room ∧ room.handler reduced = h ∧ h.id = id
  own : ∀ lobby room reduced, r.rooms lobby = some room →
    (room.handler reduced).server = room.apx ∧ (room.handler reduced).reduced = reduced
  inRange : ∀ lobby room reduced, r.rooms lobby = some room →
    roomMinID ≤ (room.handler reduced).id ∧ (room.handler reduced).id ≤ roomMaxID
  distinct : ∀ lobby lobby' room room' reduced reduced', r.rooms lobby = some room →
    r.rooms lobby' = some room' → (room.handler reduced).id = (room'.handler reduced').id →
    lobby = lobby' ∧ reduced = reduced'

lemma RoomRegistry.tidy_new : RoomRegistry.new.Tidy where
  entries id h := by
    constructor
    · intro e
      cases e
    · rintro ⟨lobby, room, reduced, e, -⟩
      cases e
  own _ _ _ e := by cases e
  inRange _ _ _ e := by cases e
  distinct _ _ _ _ _ _ e := by cases e

/-- What a start that succeeds has done. -/
lemma RoomRegistry.start_cases {r r' : RoomRegistry} {lobbyRoomId : String} {apx : ℕ}
    {normalIdPtr reducedIdPtr : Option ℤ} {draw : ℕ}
    (ok : r.startNewHostedRoom lobbyRoomId apx normalIdPtr reducedIdPtr draw = .ok r') :
    ∃ room : StartedRoom, r.rooms lobbyRoomId = none ∧
      r'.rooms = Function.update r.rooms lobbyRoomId (some room) ∧
      r'.idToHandler =
        Function.update (Function.update r.idToHandler room.normalHandler.id (some room.normalHandler))
          room.reducedHandler.id (some room.reducedHandler) ∧
      r.Free room.normalHandler.id ∧ r.Free room.reducedHandler.id ∧
      room.normalHandler.id ≠ room.reducedHandler.id ∧
      ∀ reduced, (room.handler reduced).server = room.apx ∧ (room.handler reduced).reduced = reduced := by
  unfold RoomRegistry.startNewHostedRoom at ok
  have spec := allocate_spec r ⟨apx, false, normalIdPtr.getD 0⟩ ⟨apx, true, reducedIdPtr.getD 0⟩ draw
  generalize r.allocateAndRegisterHandlerPair ⟨apx, false, normalIdPtr.getD 0⟩
    ⟨apx, true, reducedIdPtr.getD 0⟩ draw = a at ok spec
  cases fresh : r.rooms lobbyRoomId with
  | some _ =>
    rw [fresh] at ok
    cases ok
  | none =>
    rw [fresh] at ok
    cases err : a.err with
    | some _ =>
      simp only [err] at ok
      cases ok
    | none =>
      obtain ⟨rooms, table⟩ := spec.filed err
      obtain ⟨freeNormal, freeReduced⟩ := spec.free err
      obtain ⟨normal, reduced⟩ := spec.handlers err
      have absent : a.registry.rooms lobbyRoomId = none := by rw [rooms, fresh]
      simp only [err, RoomRegistry.add, absent, Except.ok.injEq] at ok
      subst ok
      refine ⟨⟨lobbyRoomId, apx, a.normal, a.reduced⟩, rfl, ?_, table,
        RoomRegistry.mem_freeIds.mp freeNormal, RoomRegistry.mem_freeIds.mp freeReduced,
        spec.apart err, ?_⟩
      · show Function.update a.registry.rooms _ _ = _
        rw [rooms]
      · intro b
        cases b with
        | false => exact ⟨congrArg ApxHandler.server normal, congrArg ApxHandler.reduced normal⟩
        | true => exact ⟨congrArg ApxHandler.server reduced, congrArg ApxHandler.reduced reduced⟩

/-- The handlers of a running room are filed. -/
lemma RoomRegistry.Tidy.filed {r : RoomRegistry} (h : r.Tidy) {lobby : String} {room : StartedRoom}
    (e : r.rooms lobby = some room) (reduced : Bool) :
    r.idToHandler (room.handler reduced).id = some (room.handler reduced) :=
  (h.entries _ _).mpr ⟨lobby, room, reduced, e, rfl, rfl⟩

/-- A free id is not one of a running room. -/
lemma RoomRegistry.Tidy.ne_free {r : RoomRegistry} (h : r.Tidy) {lobby : String} {room : StartedRoom}
    (e : r.rooms lobby = some room) (reduced : Bool) {id : ℤ} (free : r.Free id) :
    (room.handler reduced).id ≠ id := by
  intro same
  have filed := h.filed e reduced
  rw [same, free.2.2] at filed
  cases filed

/-- A start that succeeds adds a room with its two handlers. -/
lemma RoomRegistry.Tidy.start {r r' : RoomRegistry} (h : r.Tidy) {lobbyRoomId : String} {apx : ℕ}
    {normalIdPtr reducedIdPtr : Option ℤ} {draw : ℕ}
    (ok : r.startNewHostedRoom lobbyRoomId apx normalIdPtr reducedIdPtr draw = .ok r') : r'.Tidy := by
  obtain ⟨room, absent, rooms, table, freeNormal, freeReduced, apart, own⟩ := RoomRegistry.start_cases ok
  have here : r'.rooms lobbyRoomId = some room := by rw [rooms, Function.update_self]
  have there : ∀ {lobby x}, r'.rooms lobby = some x →
      lobby = lobbyRoomId ∧ x = room ∨ lobby ≠ lobbyRoomId ∧ r.rooms lobby = some x := by
    intro lobby x e
    by_cases same : lobby = lobbyRoomId
    · rw [same, here] at e
      exact Or.inl ⟨same, (Option.some.inj e).symm⟩
    · rw [rooms, Function.update_of_ne same] at e
      exact Or.inr ⟨same, e⟩
  have free : ∀ reduced, r.Free (room.handler reduced).id := by
    intro reduced
    cases reduced with
    | false => exact freeNormal
    | true => exact freeReduced
  have filed : ∀ reduced, r'.idToHandler (room.handler reduced).id = some (room.handler reduced) := by
    intro reduced
    rw [table]
    cases reduced with
    | false => exact (Function.update_of_ne apart ..).trans (Function.update_self ..)
    | true => exact Function.update_self ..
  have others : ∀ id, (∀ reduced, id ≠ (room.handler reduced).id) →
      r'.idToHandler id = r.idToHandler id := by
    intro id ne
    have neNormal : id ≠ room.normalHandler.id := ne false
    have neReduced : id ≠ room.reducedHandler.id := ne true
    rw [table, Function.update_of_ne neReduced, Function.update_of_ne neNormal]
  refine ⟨?_, ?_, ?_, ?_⟩
  · intro id x
    constructor
    · intro e
      by_cases mine : ∀ reduced, id ≠ (room.handler reduced).id
      · rw [others id mine] at e
        obtain ⟨lobby, y, reduced, running, rest⟩ := (h.entries id x).mp e
        refine ⟨lobby, y, reduced, ?_, rest⟩
        rw [rooms, Function.update_of_ne _, running]
        rintro rfl
        rw [absent] at running
        cases running
      · rw [not_forall] at mine
        obtain ⟨reduced, same⟩ := mine
        have same := not_not.mp same
        rw [same, filed reduced] at e
        cases e
        exact ⟨lobbyRoomId, room, reduced, here, rfl, same.symm⟩
    · rintro ⟨lobby, y, reduced, running, rfl, rfl⟩
      rcases there running with ⟨-, rfl⟩ | ⟨-, running⟩
      · exact filed reduced
      · rw [others]
        · exact h.filed running reduced
        · exact fun b => h.ne_free running reduced (free b)
  · intro lobby y reduced running
    rcases there running with ⟨-, rfl⟩ | ⟨-, running⟩
    · exact own reduced
    · exact h.own lobby y reduced running
  · intro lobby y reduced running
    rcases there running with ⟨-, rfl⟩ | ⟨-, running⟩
    · exact ⟨(free reduced).1, (free reduced).2.1⟩
    · exact h.inRange lobby y reduced running
  · intro lobby lobby' y y' reduced reduced' running running' same
    rcases there running with ⟨rfl, rfl⟩ | ⟨-, running⟩
    · rcases there running' with ⟨rfl, rfl⟩ | ⟨-, running'⟩
      · refine ⟨rfl, ?_⟩
        cases reduced <;> cases reduced' <;> first | rfl | exact absurd same apart | exact absurd same.symm apart
      · exact absurd same.symm (h.ne_free running' reduced' (free reduced))
    · rcases there running' with ⟨rfl, rfl⟩ | ⟨-, running'⟩
      · exact absurd same (h.ne_free running reduced (free reduced'))
      · exact h.distinct lobby lobby' y y' reduced reduced' running running' same

/-- A removal takes a room out with its two handlers. -/
lemma RoomRegistry.Tidy.remove {r : RoomRegistry} (h : r.Tidy) (roomId : String) :
    (r.remove roomId).Tidy := by
  have there : ∀ {lobby x}, (r.remove roomId).rooms lobby = some x →
      lobby ≠ roomId ∧ r.rooms lobby = some x := by
    intro lobby x e
    by_cases same : lobby = roomId
    · rw [same] at e
      have e := (Function.update_self ..).symm.trans e
      cases e
    · exact ⟨same, (Function.update_of_ne same ..).symm.trans e⟩
  have kept : ∀ {lobby x}, lobby ≠ roomId → r.rooms lobby = some x →
      (r.remove roomId).rooms lobby = some x :=
    fun ne e => (Function.update_of_ne ne ..).trans e
  have table : ∀ id x, (r.remove roomId).idToHandler id = some x ↔
      r.idToHandler id = some x ∧
        ∀ room reduced, r.rooms roomId = some room → id ≠ (room.handler reduced).id := by
    intro id x
    unfold RoomRegistry.remove
    cases e : r.rooms roomId with
    | none => exact ⟨fun f => ⟨f, fun _ _ g => by cases g⟩, fun f => f.1⟩
    | some room =>
      show Function.update (Function.update r.idToHandler (room.handler false).id none)
        (room.handler true).id none id = some x ↔ _
      by_cases reduced : id = (room.handler true).id
      · rw [reduced, Function.update_self]
        exact ⟨fun f => (by cases f), fun f => absurd rfl (f.2 room true rfl)⟩
      · rw [Function.update_of_ne reduced]
        by_cases normal : id = (room.handler false).id
        · rw [normal, Function.update_self]
          exact ⟨fun f => (by cases f), fun f => absurd rfl (f.2 room false rfl)⟩
        · rw [Function.update_of_ne normal]
          refine ⟨fun f => ⟨f, ?_⟩, fun f => f.1⟩
          rintro room' b g
          cases g
          cases b with
          | false => exact normal
          | true => exact reduced
  refine ⟨?_, ?_, ?_, ?_⟩
  · intro id x
    rw [table]
    constructor
    · rintro ⟨e, other⟩
      obtain ⟨lobby, y, reduced, running, rfl, rfl⟩ := (h.entries id x).mp e
      refine ⟨lobby, y, reduced, kept ?_ running, rfl, rfl⟩
      rintro rfl
      exact other y reduced running rfl
    · rintro ⟨lobby, y, reduced, running, rfl, rfl⟩
      obtain ⟨ne, running⟩ := there running
      refine ⟨h.filed running reduced, ?_⟩
      intro y' reduced' running' same
      exact ne (h.distinct lobby roomId y y' reduced reduced' running running' same).1
  · intro lobby y reduced running
    exact h.own lobby y reduced (there running).2
  · intro lobby y reduced running
    exact h.inRange lobby y reduced (there running).2
  · intro lobby lobby' y y' reduced reduced' running running' same
    exact h.distinct lobby lobby' y y' reduced reduced' (there running).2 (there running').2 same

/-- Whatever rooms were started and removed, the table belongs to the running rooms. -/
lemma RegistryReached.tidy {r : RoomRegistry} (h : RegistryReached r) : r.Tidy := by
  induction h with
  | new => exact RoomRegistry.tidy_new
  | start _ ok ih => exact ih.start ok
  | remove _ roomId ih => exact ih.remove roomId

/-- Handler ids belong to running rooms, and the allocator keeps what it can and fails only when it
must. -/
theorem handler_ids_belong_to_rooms :
    (∀ r, RegistryReached r → r.Tidy) ∧
      ∀ (r : RoomRegistry) (normal reduced : ApxHandler) (draw : ℕ),
        (r.allocateAndRegisterHandlerPair normal reduced draw).Correct r normal reduced :=
  ⟨fun _ h => h.tidy, allocate_spec⟩

/-- A room started under the ids that it had before, as the only one. -/
def startedOnce : Except String RoomRegistry :=
  RoomRegistry.new.startNewHostedRoom "a" 7 (some 12345) (some 23456) 0

theorem startedOnce_tidy :
    ∃ r, startedOnce = .ok r ∧ r.Tidy ∧ (r.remove "a").Tidy ∧
      r.idToHandler 12345 = some ⟨7, false, 12345⟩ ∧ r.idToHandler 23456 = some ⟨7, true, 23456⟩ := by
  have started : ∃ r, startedOnce = .ok r := ⟨_, rfl⟩
  obtain ⟨r, ok⟩ := started
  have reached := RegistryReached.start .new ok
  refine ⟨r, ok, handler_ids_belong_to_rooms.1 r reached,
    handler_ids_belong_to_rooms.1 _ (reached.remove "a"), ?_⟩
  cases ok
  exact ⟨rfl, rfl⟩

end ArchipelagoXL.Apx
