import ArchipelagoXL.Apx.DataPackages

/-!
# Rooms that share datapackages

A room adds the datapackage of each of its games to its store when it is loaded, and releases them all
when it is removed. Whatever rooms come and go, both levels of the cache count what they should count
and every room has the data it was loaded with (`rooms_share_datapackages`), as long as equal checksums
mean equal data and no checksum has a colon.

A map is walked in any order, so what a table of names by id says of an id with two names is left open.
-/

namespace ArchipelagoXL.Apx

/-- A room that is loaded: the data it was loaded with, by game, and its store. -/
structure LoadedRoom where
  games : WalkMap String GameData
  store : DataPackageStore

/-- The cache and the rooms that are loaded. -/
structure CachedRooms where
  cache : GlobalDataPackageCache
  rooms : List LoadedRoom

/-- A room is loaded with the data of its games, or one of the loaded rooms is released. -/
inductive CacheOp where
  | load (games : WalkMap String GameData)
  | release (i : ℕ)

/-- The data that an operation brings. -/
def CacheOp.packages : CacheOp → List Package
  | .load games => games.entries
  | .release _ => []

/-- A room is loaded: its games are added one by one to a new store. -/
def CachedRooms.load (s : CachedRooms) (games : WalkMap String GameData) : CachedRooms :=
  let (cache, store) := loadGames s.cache newDataPackageStore games.entries
  ⟨cache, ⟨games, store⟩ :: s.rooms⟩

/-- A loaded room is removed, and its store released. -/
def CachedRooms.release (s : CachedRooms) (i : ℕ) : CachedRooms :=
  match s.rooms[i]? with
  | none => s
  | some room => ⟨room.store.release s.cache, s.rooms.eraseIdx i⟩

/-- What an operation does. -/
def CachedRooms.step (s : CachedRooms) : CacheOp → CachedRooms
  | .load games => s.load games
  | .release i => s.release i

/-- The cache and the rooms after some operations, the newest first. -/
def cacheAfter : List CacheOp → CachedRooms
  | [] => ⟨newGlobalDataPackageCache, []⟩
  | op :: ops => (cacheAfter ops).step op

/-- A room holds a game with a checksum. -/
def LoadedRoom.holds (room : LoadedRoom) (checksum game : String) : Bool :=
  room.games.entries.any fun p => decide (p.1 = game ∧ p.2.checksum = checksum)

/-- What a store has for a game is what the data says. -/
structure DataPackageStore.Serves (ds : DataPackageStore) (p : Package) : Prop where
  package : ds.packages p.1 = some p.2.marshal
  response : ds.singleResponses p.1 = some (singleResponse p.1 p.2.marshal)
  name : ds.encodedGameNameKeys p.1 = some (marshalString p.1)
  items : ∃ table, ds.itemIDToName p.1 = some table ∧
    (p.2.itemNameToID.getD .empty).IsInverse table
  locations : ∃ table, ds.locationIDToName p.1 = some table ∧
    (p.2.locationNameToID.getD .empty).IsInverse table

/-- A count that is kept while it is positive. -/
def positive (n : ℕ) : Option ℤ := if n = 0 then none else some n

/-- The cache counts what is loaded, and every room has its data. -/
structure CachedRooms.Safe (s : CachedRooms) : Prop where
  wrappers : ∀ checksum game, ':' ∉ checksum.toList →
    (s.cache.byGameKey (gameKey checksum game)).map CachedGameDataPackage.refCount =
      positive (s.rooms.countP fun room => room.holds checksum game)
  keys : ∀ key w, s.cache.byGameKey key = some w →
    ':' ∉ w.checksum.toList ∧ ∃ game, key = gameKey w.checksum game
  datapackages : ∀ checksum,
    (s.cache.byChecksum checksum).map (fun a => (s.cache.heap a).refCount) =
      positive (s.cache.keysOf checksum).ncard
  stored : ∀ room ∈ s.rooms, ∀ p ∈ room.games.entries, room.store.Serves p

/-! ## A room is loaded -/

/-- What the loaded rooms hold. -/
def CachedRooms.held (s : CachedRooms) : List Package := s.rooms.flatMap fun room => room.games.entries

lemma DataPackageStore.serves_attach {c : GlobalDataPackageCache} {w : CachedGameDataPackage}
    {p : Package} (wraps : c.Wraps w p) (ds : DataPackageStore) :
    (ds.attachWrapper p.1 w (c.heap w.datapackage)).Serves p where
  package := (Function.update_self ..).trans (congrArg some wraps.encodes.encoded)
  response := (Function.update_self ..).trans (congrArg some wraps.response)
  name := (Function.update_self ..).trans (congrArg some wraps.name)
  items := ⟨_, Function.update_self .., wraps.encodes.items⟩
  locations := ⟨_, Function.update_self .., wraps.encodes.locations⟩

/-- What is attached for another game leaves a game alone. -/
lemma DataPackageStore.Serves.attach {ds : DataPackageStore} {p : Package} (h : ds.Serves p)
    {game : String} (ne : p.1 ≠ game) (w : CachedGameDataPackage) (d : CachedDataPackage) :
    (ds.attachWrapper game w d).Serves p where
  package := (Function.update_of_ne ne ..).trans h.package
  response := (Function.update_of_ne ne ..).trans h.response
  name := (Function.update_of_ne ne ..).trans h.name
  items := by
    obtain ⟨table, e, inv⟩ := h.items
    exact ⟨table, (Function.update_of_ne ne ..).trans e, inv⟩
  locations := by
    obtain ⟨table, e, inv⟩ := h.locations
    exact ⟨table, (Function.update_of_ne ne ..).trans e, inv⟩

/-- `AddDataPackage`: one more is held, the room serves it and will release it. -/
lemma Shares.addDataPackage {c : GlobalDataPackageCache} {held : List Package} (h : Shares c held)
    {p : Package} (ok : Honest (p :: held)) (ds : DataPackageStore) :
    let r := Apx.addDataPackage c ds p.1 p.2
    Shares r.1 (p :: held) ∧ r.2.Serves p ∧ r.2.gameKeys = ds.gameKeys ++ [p.key] ∧
      ∀ q : Package, q.1 ≠ p.1 → ds.Serves q → r.2.Serves q := by
  obtain ⟨shares, wraps⟩ := h.getOrAdd ok
  refine ⟨shares, DataPackageStore.serves_attach wraps ds, ?_, ?_⟩
  · have key : gameKey _ p.1 = p.key := congrArg (fun s => gameKey s p.1) wraps.checksum
    exact congrArg (fun k => ds.gameKeys ++ [k]) key
  · intro q ne serves
    exact serves.attach ne _ _

/-- The loop over the games: all are held, the room serves them and will release them. -/
lemma Shares.loadGames {c : GlobalDataPackageCache} {held games : List Package} (h : Shares c held)
    (ok : Honest (games ++ held)) (distinct : (games.map Prod.fst).Nodup) (ds : DataPackageStore) :
    let r := Apx.loadGames c ds games
    Shares r.1 (games ++ held) ∧ (∀ p ∈ games, r.2.Serves p) ∧
      r.2.gameKeys = ds.gameKeys ++ games.map Package.key ∧
      ∀ q : Package, q.1 ∉ games.map Prod.fst → ds.Serves q → r.2.Serves q := by
  induction games generalizing c held ds with
  | nil => exact ⟨h, fun p hp => absurd hp List.not_mem_nil, (List.append_nil _).symm, fun _ _ s => s⟩
  | cons p games ih =>
    obtain ⟨absent, distinct⟩ := List.nodup_cons.mp distinct
    have perm : (games ++ p :: held).Perm (p :: games ++ held) := List.perm_middle
    have okHead : Honest (p :: held) := ok.mono (List.cons_subset_cons p (List.subset_append_right _ _))
    obtain ⟨shares, serves, keys, others⟩ := h.addDataPackage okHead ds
    obtain ⟨shares, all, allKeys, rest⟩ := ih shares (ok.mono perm.subset) distinct
      (Apx.addDataPackage c ds p.1 p.2).2
    refine ⟨shares.perm perm, ?_, ?_, ?_⟩
    · intro q hq
      rcases List.mem_cons.mp hq with rfl | hq
      · exact rest q absent serves
      · exact all q hq
    · rw [keys, List.append_assoc] at allKeys
      exact allKeys
    · intro q hq served
      rw [List.map_cons, List.mem_cons, not_or] at hq
      exact rest q hq.2 (others q hq.1 served)

/-! ## A room is released -/

lemma Shares.release {c : GlobalDataPackageCache} {held games : List Package}
    (h : Shares c (games ++ held)) (ok : Honest (games ++ held)) :
    Shares (c.release (games.map Package.key)) held := by
  induction games generalizing c with
  | nil => exact h
  | cons p games ih => exact ih (h.releaseKey ok) (ok.mono (List.subset_cons_self p _))

/-! ## Whatever rooms come and go -/

/-- What a room has in its store is what it was loaded with. -/
structure LoadedRoom.Ready (room : LoadedRoom) : Prop where
  serves : ∀ p ∈ room.games.entries, room.store.Serves p
  keys : room.store.gameKeys = room.games.entries.map Package.key

lemma CachedRooms.release_none {s : CachedRooms} {i : ℕ} (e : s.rooms[i]? = none) :
    s.release i = s := by
  simp only [CachedRooms.release, e]

lemma CachedRooms.release_some {s : CachedRooms} {i : ℕ} {room : LoadedRoom}
    (e : s.rooms[i]? = some room) :
    s.release i = ⟨room.store.release s.cache, s.rooms.eraseIdx i⟩ := by
  simp only [CachedRooms.release, e]

/-- What is held was brought by some operation. -/
lemma held_subset (ops : List CacheOp) :
    (cacheAfter ops).held ⊆ ops.flatMap CacheOp.packages := by
  induction ops with
  | nil => exact List.nil_subset _
  | cons op ops ih =>
    rw [List.flatMap_cons]
    intro p hp
    cases op with
    | load games =>
      rcases List.mem_append.mp hp with hp | hp
      · exact List.mem_append_left _ hp
      · exact List.mem_append_right _ (ih hp)
    | release i =>
      have hp : p ∈ ((cacheAfter ops).release i).held := hp
      apply List.mem_append_right
      apply ih
      cases e : (cacheAfter ops).rooms[i]? with
      | none => rwa [CachedRooms.release_none e] at hp
      | some room =>
        rw [CachedRooms.release_some e] at hp
        obtain ⟨room', hroom, hp⟩ := List.mem_flatMap.mp hp
        exact List.mem_flatMap.mpr ⟨room', List.mem_of_mem_eraseIdx hroom, hp⟩

/-- One operation: the cache goes on sharing what the rooms hold. -/
lemma CachedRooms.step_shares {s : CachedRooms} (h : Shares s.cache s.held)
    (ready : ∀ room ∈ s.rooms, room.Ready) (op : CacheOp) (ok : Honest (op.packages ++ s.held)) :
    Shares (s.step op).cache (s.step op).held ∧ ∀ room ∈ (s.step op).rooms, room.Ready := by
  cases op with
  | load games =>
    obtain ⟨shares, serves, keys, -⟩ := h.loadGames ok games.nodup newDataPackageStore
    refine ⟨shares, ?_⟩
    intro room hroom
    rcases List.mem_cons.mp hroom with rfl | hroom
    · exact ⟨serves, keys⟩
    · exact ready room hroom
  | release i =>
    show Shares (s.release i).cache (s.release i).held ∧ ∀ room ∈ (s.release i).rooms, room.Ready
    cases e : s.rooms[i]? with
    | none =>
      rw [CachedRooms.release_none e]
      exact ⟨h, ready⟩
    | some room =>
      obtain ⟨hi, hroom⟩ := List.getElem?_eq_some_iff.mp e
      have mem : room ∈ s.rooms := hroom ▸ List.getElem_mem hi
      have perm : s.held.Perm
          (room.games.entries ++ (s.rooms.eraseIdx i).flatMap fun room => room.games.entries) :=
        hroom ▸ (List.getElem_cons_eraseIdx_perm hi).symm.flatMap_right _
      rw [CachedRooms.release_some e]
      refine ⟨?_, fun r hr => ready r (List.mem_of_mem_eraseIdx hr)⟩
      have ok : Honest s.held := ok
      have released := (h.perm perm).release (ok.mono perm.symm.subset)
      show Shares (s.cache.release room.store.gameKeys) _
      rw [(ready room mem).keys]
      exact released

/-- After any operations the cache shares what the rooms hold. -/
theorem cacheAfter_shares (ops : List CacheOp) (ok : Honest (ops.flatMap CacheOp.packages)) :
    Shares (cacheAfter ops).cache (cacheAfter ops).held ∧
      ∀ room ∈ (cacheAfter ops).rooms, room.Ready := by
  induction ops with
  | nil => exact ⟨shares_new, fun room h => absurd h List.not_mem_nil⟩
  | cons op ops ih =>
    rw [List.flatMap_cons] at ok
    obtain ⟨shares, ready⟩ := ih (ok.mono (List.subset_append_right _ _))
    apply CachedRooms.step_shares shares ready op
    apply ok.mono
    exact List.append_subset.mpr ⟨List.subset_append_left _ _,
      List.Subset.trans (held_subset ops) (List.subset_append_right _ _)⟩

/-- The keys of a room are those of what it holds, each once. -/
lemma LoadedRoom.count_key {room : LoadedRoom} (ok : Honest room.games.entries) {checksum : String}
    (noColon : ':' ∉ checksum.toList) (game : String) :
    (room.games.entries.map Package.key).count (gameKey checksum game) =
      if room.holds checksum game then 1 else 0 := by
  have distinct : (room.games.entries.map Package.key).Nodup := by
    apply List.Nodup.map_on _ (List.Nodup.of_map _ room.games.nodup)
    intro p hp q hq e
    obtain ⟨name, -⟩ := ok.key_inj hp hq e
    exact List.inj_on_of_nodup_map room.games.nodup hp hq name
  have mem : gameKey checksum game ∈ room.games.entries.map Package.key ↔
      room.holds checksum game = true := by
    rw [LoadedRoom.holds, List.any_eq_true, List.mem_map]
    constructor
    · rintro ⟨p, hp, e⟩
      obtain ⟨hs, hg⟩ := gameKey_inj (ok.noColon p hp) noColon e
      exact ⟨p, hp, decide_eq_true ⟨hg, hs⟩⟩
    · rintro ⟨p, hp, e⟩
      obtain ⟨rfl, rfl⟩ := of_decide_eq_true e
      exact ⟨p, hp, rfl⟩
  split
  · rename_i hold
    exact List.count_eq_one_of_mem distinct (mem.mpr hold)
  · rename_i hold
    exact List.count_eq_zero_of_not_mem fun h => hold (mem.mp h)

/-- How often a key is held is how many rooms hold its game and checksum. -/
lemma count_held (rooms : List LoadedRoom)
    (ok : Honest (rooms.flatMap fun room => room.games.entries)) {checksum : String}
    (noColon : ':' ∉ checksum.toList) (game : String) :
    ((rooms.flatMap fun room => room.games.entries).map Package.key).count (gameKey checksum game) =
      rooms.countP fun room => room.holds checksum game := by
  induction rooms with
  | nil => rfl
  | cons room rooms ih =>
    rw [List.flatMap_cons] at ok
    have head := LoadedRoom.count_key (ok.mono (List.subset_append_left _ _)) noColon game
    have tail := ih (ok.mono (List.subset_append_right _ _))
    rw [List.flatMap_cons, List.map_append, List.count_append, head, tail, List.countP_cons]
    omega

/-- Datapackages are shared safely. -/
theorem rooms_share_datapackages (ops : List CacheOp) (ok : Honest (ops.flatMap CacheOp.packages)) :
    (cacheAfter ops).Safe := by
  obtain ⟨shares, ready⟩ := cacheAfter_shares ops ok
  have ok := ok.mono (held_subset ops)
  refine ⟨?_, ?_, ?_, ?_⟩
  · intro checksum game noColon
    have count := count_held _ ok noColon game
    cases e : (cacheAfter ops).cache.byGameKey (gameKey checksum game) with
    | none =>
      have absent : gameKey checksum game ∉ (cacheAfter ops).held.map Package.key := by
        intro mem
        obtain ⟨p, hp, key⟩ := List.mem_map.mp mem
        obtain ⟨w, ew, -⟩ := shares.wrapped p hp
        rw [key, e] at ew
        cases ew
      have zero := count.symm.trans (List.count_eq_zero_of_not_mem absent)
      rw [zero]
      rfl
    | some w =>
      have pos := List.count_pos_iff.mpr (shares.keyed e)
      have refs : w.refCount = _ := shares.counted e
      rw [CachedRooms.held] at refs pos
      rw [count] at refs pos
      rw [positive, if_neg (by omega), ← refs]
      rfl
  · intro key w ew
    obtain ⟨p, hp, rfl⟩ := List.mem_map.mp (shares.keyed ew)
    have wraps := shares.toCounts.wraps ok (List.Subset.refl _) hp ew
    rw [wraps.checksum]
    exact ⟨ok.noColon p hp, p.1, rfl⟩
  · intro checksum
    cases e : (cacheAfter ops).cache.byChecksum checksum with
    | none =>
      have nothing : (cacheAfter ops).cache.keysOf checksum = ∅ := by
        rw [Set.eq_empty_iff_forall_notMem]
        rintro key ⟨w, ew, rfl⟩
        have found := shares.toCounts.byChecksum ew
        rw [e] at found
        cases found
      rw [nothing, Set.ncard_empty]
      rfl
    | some a =>
      obtain ⟨p, hp, rfl⟩ := shares.wanted e
      obtain ⟨w, ew, wraps⟩ := shares.wrapped p hp
      have mem : p.key ∈ (cacheAfter ops).cache.keysOf p.2.checksum := ⟨w, ew, wraps.checksum⟩
      have card := Set.ncard_ne_zero_of_mem mem (shares.toCounts.keysOf_finite _)
      rw [positive, if_neg card, ← (shares.packaged e).2]
      rfl
  · intro room hroom p hp
    exact (ready room hroom).serves p hp

/-- Data whose names come in one order or the other. -/
def swords (names : WalkMap String ℤ) : GameData := ⟨some names, none, "5f3a"⟩

/-- Two rooms with the same game, walked in different orders; then the older one is released. -/
def swordRooms : List CacheOp :=
  [.release 1,
    .load ⟨[("Zelda", swords ⟨[("Bow", 2), ("Sword", 1)], by decide⟩)], by decide⟩,
    .load ⟨[("Zelda", swords ⟨[("Sword", 1), ("Bow", 2)], by decide⟩)], by decide⟩]

theorem swordRooms_safe : (cacheAfter swordRooms).Safe := by
  apply rooms_share_datapackages swordRooms
  have same : ∀ p ∈ swordRooms.flatMap CacheOp.packages,
      p.2.checksum = "5f3a" ∧ p.2.Same (swords ⟨[("Sword", 1), ("Bow", 2)], by decide⟩) := by
    intro p hp
    have noNames : (WalkMap.empty : WalkMap String ℤ).Same WalkMap.empty := List.Perm.refl _
    rcases List.mem_cons.mp hp with rfl | hp
    · exact ⟨rfl, ⟨Iff.rfl.trans (by simp [swords]), List.Perm.swap _ _ _⟩, ⟨Iff.rfl, noNames⟩, rfl⟩
    · rw [List.mem_singleton.mp hp]
      exact ⟨rfl, ⟨Iff.rfl, List.Perm.refl _⟩, ⟨Iff.rfl, noNames⟩, rfl⟩
  constructor
  · intro p hp
    rw [(same p hp).1]
    decide
  · intro p hp q hq _
    exact (same p hp).2.trans (same q hq).2.symm

end ArchipelagoXL.Apx
