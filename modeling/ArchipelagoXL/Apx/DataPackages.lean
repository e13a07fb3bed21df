import ArchipelagoXL.Lib.WalkMap
import Mathlib.Data.Set.Card
import Mathlib.Tactic.Common

/-!
# The datapackage cache

Rooms share what the games of their players are made of (`apx/datapackage.go`): the names of items
and locations of a game, encoded once for each checksum and wrapped once for each checksum and game.
Both levels are reference counted: a wrapper by the rooms that hold it, a datapackage by its wrappers.

What the cache is for is said by the list of what is held (`Shares`): every pair of a game and its data is
there as often as it is held. `GetOrAdd` adds a pair to that list and `Release` takes one out; the counts,
and what the rooms read from the cache, follow from it. The response for all games at once is built from
the packages of a room and left out.
-/

namespace ArchipelagoXL.Apx

/-! ## The encoding -/

/-- A digit of a `\u` escape. -/
def hexDigit (n : ℕ) : Char := Char.ofNat (if n < 10 then 48 + n else 87 + n)

/-- How a character is written in a string (Go `appendString` of `encoding/json`, with `escapeHTML`). -/
def marshalChar (c : Char) : List Char :=
  if c = '"' ∨ c = '\\' then ['\\', c]
  else if c.toNat = 8 then ['\\', 'b']
  else if c.toNat = 12 then ['\\', 'f']
  else if c = '\n' then ['\\', 'n']
  else if c = '\r' then ['\\', 'r']
  else if c = '\t' then ['\\', 't']
  else if c.toNat < 32 ∨ c = '<' ∨ c = '>' ∨ c = '&' then
    ['\\', 'u', '0', '0', hexDigit (c.toNat / 16), hexDigit (c.toNat % 16)]
  else if c.toNat = 8232 then ['\\', 'u', '2', '0', '2', '8']
  else if c.toNat = 8233 then ['\\', 'u', '2', '0', '2', '9']
  else [c]

/-- Go `json.Marshal` of a string. -/
def marshalString (s : String) : String :=
  "\"" ++ String.ofList (s.toList.flatMap marshalChar) ++ "\""

/-- Go `json.Marshal` of a map from names to ids, which sorts its keys; a nil map is `null`. -/
def marshalIds : Option (WalkMap String ℤ) → String
  | none => "null"
  | some ids =>
    "\x7b" ++ String.intercalate "," (ids.sorted.map fun e => marshalString e.1 ++ ":" ++ toString e.2)
      ++ "\x7d"

/-- Go `GameData`. -/
structure GameData where
  itemNameToID : Option (WalkMap String ℤ)
  locationNameToID : Option (WalkMap String ℤ)
  checksum : String

/-- Go `json.Marshal` of game data. -/
def GameData.marshal (gd : GameData) : String :=
  "\x7b\"item_name_to_id\":" ++ marshalIds gd.itemNameToID ++ ",\"location_name_to_id\":" ++
    marshalIds gd.locationNameToID ++ ",\"checksum\":" ++ marshalString gd.checksum ++ "\x7d"

/-- The response for one game. -/
def singleResponse (game encoded : String) : String :=
  "[\x7b\"cmd\":\"DataPackage\",\"data\":\x7b\"games\":\x7b" ++ marshalString game ++ ":" ++ encoded ++
    "\x7d\x7d\x7d]"

/-- The loop over a map from names to ids; a nil map has no entries. -/
def idToName (ids : Option (WalkMap String ℤ)) : ℤ → Option String := (ids.getD .empty).invert

/-! ## The cache -/

/-- Go `cachedDataPackage`. -/
structure CachedDataPackage where
  encoded : String
  itemIDToName : ℤ → Option String
  locationIDToName : ℤ → Option String
  refCount : ℤ

/-- Go `cachedGameDataPackage`, with the address of its datapackage. -/
structure CachedGameDataPackage where
  datapackage : ℕ
  checksum : String
  encodedGameName : String
  singleResponse : String
  refCount : ℤ

/-- Go `GlobalDataPackageCache`, with the datapackages that were made by their addresses. -/
structure GlobalDataPackageCache where
  heap : ℕ → CachedDataPackage
  made : ℕ
  byChecksum : String → Option ℕ
  byGameKey : String → Option CachedGameDataPackage

/-- Go `newGlobalDataPackageCache`. -/
def newGlobalDataPackageCache : GlobalDataPackageCache where
  heap := fun _ => ⟨"", fun _ => none, fun _ => none, 0⟩
  made := 0
  byChecksum := fun _ => none
  byGameKey := fun _ => none

/-- The key of a wrapper. -/
def gameKey (checksum game : String) : String := checksum ++ ":" ++ game

/-- Replaces the wrapper of a key. -/
def GlobalDataPackageCache.setWrapper (c : GlobalDataPackageCache) (key : String) (w : Option CachedGameDataPackage) :
    GlobalDataPackageCache :=
  { c with byGameKey := Function.update c.byGameKey key w }

/-- Adds to the count of a datapackage. -/
def GlobalDataPackageCache.refer (c : GlobalDataPackageCache) (datapackage : ℕ) (n : ℤ) :
    GlobalDataPackageCache :=
  let entry := c.heap datapackage
  { c with heap := Function.update c.heap datapackage { entry with refCount := entry.refCount + n } }

/-- Puts a datapackage into the cache, at the next address. -/
def GlobalDataPackageCache.make (c : GlobalDataPackageCache) (checksum : String)
    (datapackage : CachedDataPackage) : GlobalDataPackageCache where
  heap := Function.update c.heap c.made datapackage
  made := c.made + 1
  byChecksum := Function.update c.byChecksum checksum (some c.made)
  byGameKey := c.byGameKey

/-- The datapackage of a checksum, made from what is given if there is none. -/
def GlobalDataPackageCache.find (c : GlobalDataPackageCache) (checksum encoded : String)
    (itemIDToName locationIDToName : ℤ → Option String) : GlobalDataPackageCache × ℕ :=
  match c.byChecksum checksum with
  | some datapackage => (c, datapackage)
  | none => (c.make checksum ⟨encoded, itemIDToName, locationIDToName, 0⟩, c.made)

/-- Go `GetOrAdd`. -/
def GlobalDataPackageCache.getOrAdd (c : GlobalDataPackageCache) (checksum game encoded : String)
    (itemIDToName locationIDToName : ℤ → Option String) :
    GlobalDataPackageCache × CachedGameDataPackage :=
  match c.byGameKey (gameKey checksum game) with
  | some wrapper =>
    let wrapper := { wrapper with refCount := wrapper.refCount + 1 }
    (c.setWrapper (gameKey checksum game) (some wrapper), wrapper)
  | none =>
    let (c, datapackage) := c.find checksum encoded itemIDToName locationIDToName
    let c := c.refer datapackage 1
    let wrapper : CachedGameDataPackage :=
      ⟨datapackage, checksum, marshalString game, singleResponse game (c.heap datapackage).encoded, 1⟩
    (c.setWrapper (gameKey checksum game) (some wrapper), wrapper)

/-- The body of the loop of `Release`. -/
def GlobalDataPackageCache.releaseKey (c : GlobalDataPackageCache) (key : String) :
    GlobalDataPackageCache :=
  match c.byGameKey key with
  | none => c
  | some wrapper =>
    if wrapper.refCount - 1 ≤ 0 then
      let c := (c.setWrapper key none).refer wrapper.datapackage (-1)
      if (c.heap wrapper.datapackage).refCount ≤ 0 then
        { c with byChecksum := Function.update c.byChecksum wrapper.checksum none }
      else c
    else
      c.setWrapper key (some { wrapper with refCount := wrapper.refCount - 1 })

/-- Go `Release` of the cache. -/
def GlobalDataPackageCache.release (c : GlobalDataPackageCache) (gameKeys : List String) :
    GlobalDataPackageCache :=
  gameKeys.foldl GlobalDataPackageCache.releaseKey c

/-! ## What a room holds -/

/-- Go `DataPackageStore`. -/
structure DataPackageStore where
  packages : String → Option String
  singleResponses : String → Option String
  encodedGameNameKeys : String → Option String
  itemIDToName : String → Option (ℤ → Option String)
  locationIDToName : String → Option (ℤ → Option String)
  gameKeys : List String

/-- Go `newDataPackageStore`. -/
def newDataPackageStore : DataPackageStore :=
  ⟨fun _ => none, fun _ => none, fun _ => none, fun _ => none, fun _ => none, []⟩

/-- Go `attachWrapper`, with the datapackage of the wrapper. -/
def DataPackageStore.attachWrapper (ds : DataPackageStore) (game : String)
    (wrapper : CachedGameDataPackage) (datapackage : CachedDataPackage) : DataPackageStore where
  packages := Function.update ds.packages game (some datapackage.encoded)
  singleResponses := Function.update ds.singleResponses game (some wrapper.singleResponse)
  encodedGameNameKeys := Function.update ds.encodedGameNameKeys game (some wrapper.encodedGameName)
  itemIDToName := Function.update ds.itemIDToName game (some datapackage.itemIDToName)
  locationIDToName := Function.update ds.locationIDToName game (some datapackage.locationIDToName)
  gameKeys := ds.gameKeys ++ [gameKey wrapper.checksum game]

/-- Go `AddDataPackage`; game data can always be encoded. -/
def addDataPackage (c : GlobalDataPackageCache) (ds : DataPackageStore) (game : String)
    (gd : GameData) : GlobalDataPackageCache × DataPackageStore :=
  let (c, wrapper) := c.getOrAdd gd.checksum game gd.marshal (idToName gd.itemNameToID)
    (idToName gd.locationNameToID)
  (c, ds.attachWrapper game wrapper (c.heap wrapper.datapackage))

/-- The loop of Go `prefetchDataPackages` over the games of a room. -/
def loadGames (c : GlobalDataPackageCache) (ds : DataPackageStore) (games : List (String × GameData)) :
    GlobalDataPackageCache × DataPackageStore :=
  games.foldl (fun s e => addDataPackage s.1 s.2 e.1 e.2) (c, ds)

/-- Go `Release` of the store. -/
def DataPackageStore.release (ds : DataPackageStore) (c : GlobalDataPackageCache) :
    GlobalDataPackageCache :=
  c.release ds.gameKeys

/-! ## What the cache is for -/

/-- The same data, perhaps with its names in another order. -/
structure GameData.Same (gd gd' : GameData) : Prop where
  items : (gd.itemNameToID = none ↔ gd'.itemNameToID = none) ∧
    (gd.itemNameToID.getD .empty).Same (gd'.itemNameToID.getD .empty)
  locations : (gd.locationNameToID = none ↔ gd'.locationNameToID = none) ∧
    (gd.locationNameToID.getD .empty).Same (gd'.locationNameToID.getD .empty)
  checksum : gd.checksum = gd'.checksum

/-- A game and its data. -/
abbrev Package := String × GameData

/-- The key of the wrapper of a game and its data. -/
def Package.key (p : Package) : String := gameKey p.2.checksum p.1

/-- A datapackage is that of some data. -/
structure CachedDataPackage.Encodes (d : CachedDataPackage) (gd : GameData) : Prop where
  encoded : d.encoded = gd.marshal
  items : (gd.itemNameToID.getD .empty).IsInverse d.itemIDToName
  locations : (gd.locationNameToID.getD .empty).IsInverse d.locationIDToName

/-- A wrapper is that of some game and data. -/
structure GlobalDataPackageCache.Wraps (c : GlobalDataPackageCache) (w : CachedGameDataPackage)
    (p : Package) : Prop where
  checksum : w.checksum = p.2.checksum
  name : w.encodedGameName = marshalString p.1
  response : w.singleResponse = singleResponse p.1 p.2.marshal
  found : c.byChecksum p.2.checksum = some w.datapackage
  encodes : (c.heap w.datapackage).Encodes p.2

/-- The keys of the wrappers with a checksum. -/
def GlobalDataPackageCache.keysOf (c : GlobalDataPackageCache) (checksum : String) : Set String :=
  fun key => ∃ w, c.byGameKey key = some w ∧ w.checksum = checksum

/-- Equal checksums mean equal data, and no checksum has a colon. -/
structure Honest (held : List Package) : Prop where
  noColon : ∀ p ∈ held, ':' ∉ p.2.checksum.toList
  agree : ∀ p ∈ held, ∀ q ∈ held, p.2.checksum = q.2.checksum → p.2.Same q.2

/-- The wrappers are those of what is held, and both levels count what refers to them. -/
structure Counts (c : GlobalDataPackageCache) (held : List Package) : Prop where
  wrapped : ∀ p ∈ held, ∃ w, c.byGameKey p.key = some w ∧ c.Wraps w p
  counted : ∀ {key w}, c.byGameKey key = some w → w.refCount = (held.map Package.key).count key
  keyed : ∀ {key w}, c.byGameKey key = some w → key ∈ held.map Package.key
  packaged : ∀ {s a}, c.byChecksum s = some a → a < c.made ∧ (c.heap a).refCount = (c.keysOf s).ncard
  apart : ∀ {s t a}, c.byChecksum s = some a → c.byChecksum t = some a → s = t

/-- The cache shares what is held: the counts are right and no datapackage is kept in vain. -/
structure Shares (c : GlobalDataPackageCache) (held : List Package) : Prop extends Counts c held where
  wanted : ∀ {s a}, c.byChecksum s = some a → ∃ p ∈ held, p.2.checksum = s

/-! ## The same data -/

lemma marshalIds_eq {ids ids' : Option (WalkMap String ℤ)} (nil : ids = none ↔ ids' = none)
    (same : (ids.getD .empty).Same (ids'.getD .empty)) : marshalIds ids = marshalIds ids' := by
  cases ids with
  | none => rw [nil.mp rfl]
  | some m =>
    cases ids' with
    | none => cases nil.mpr rfl
    | some m' =>
      have sorted : m.sorted = m'.sorted := WalkMap.Same.sorted_eq same
      rw [marshalIds, marshalIds, sorted]

lemma GameData.Same.marshal_eq {gd gd' : GameData} (h : gd.Same gd') : gd.marshal = gd'.marshal := by
  have items := marshalIds_eq h.items.1 h.items.2
  have locations := marshalIds_eq h.locations.1 h.locations.2
  have checksum : gd.checksum = gd'.checksum := h.checksum
  unfold GameData.marshal
  rw [items, locations, checksum]

lemma GameData.Same.symm {gd gd' : GameData} (h : gd.Same gd') : gd'.Same gd where
  items := ⟨h.items.1.symm, h.items.2.symm⟩
  locations := ⟨h.locations.1.symm, h.locations.2.symm⟩
  checksum := h.checksum.symm

lemma GameData.Same.trans {a b c : GameData} (h : a.Same b) (h' : b.Same c) : a.Same c where
  items := ⟨h.items.1.trans h'.items.1, h.items.2.trans h'.items.2⟩
  locations := ⟨h.locations.1.trans h'.locations.1, h.locations.2.trans h'.locations.2⟩
  checksum := h.checksum.trans h'.checksum

lemma CachedDataPackage.Encodes.same {d : CachedDataPackage} {gd gd' : GameData} (h : d.Encodes gd)
    (same : gd.Same gd') : d.Encodes gd' where
  encoded := h.encoded.trans same.marshal_eq
  items := same.items.2.isInverse h.items
  locations := same.locations.2.isInverse h.locations

/-- What `AddDataPackage` makes of data. -/
lemma encodes_new (gd : GameData) (n : ℤ) :
    CachedDataPackage.Encodes
      ⟨gd.marshal, idToName gd.itemNameToID, idToName gd.locationNameToID, n⟩ gd where
  encoded := rfl
  items := WalkMap.invert_isInverse _
  locations := WalkMap.invert_isInverse _

/-- Two texts cut at their first separator. -/
lemma cut_inj {A : Type} {a : A} {xs ys us vs : List A} (hx : a ∉ xs) (hy : a ∉ ys)
    (e : xs ++ a :: us = ys ++ a :: vs) : xs = ys ∧ us = vs := by
  induction xs generalizing ys with
  | nil =>
    cases ys with
    | nil => exact ⟨rfl, (List.cons.inj e).2⟩
    | cons y ys =>
      have head : a = y := (List.cons.inj e).1
      exact absurd (head ▸ List.mem_cons_self) hy
  | cons x xs ih =>
    cases ys with
    | nil =>
      have head : x = a := (List.cons.inj e).1
      exact absurd (head ▸ List.mem_cons_self) hx
    | cons y ys =>
      obtain ⟨head, tail⟩ := List.cons.inj e
      obtain ⟨hl, hr⟩ := ih (fun h => hx (List.mem_cons_of_mem _ h))
        (fun h => hy (List.mem_cons_of_mem _ h)) tail
      exact ⟨by rw [head, hl], hr⟩

/-- Without a colon in the checksums a key says what it is of. -/
lemma gameKey_inj {s t g h : String} (hs : ':' ∉ s.toList) (ht : ':' ∉ t.toList)
    (e : gameKey s g = gameKey t h) : s = t ∧ g = h := by
  have chars : s.toList ++ ':' :: g.toList = t.toList ++ ':' :: h.toList := by
    have e := congrArg String.toList e
    simpa [gameKey] using e
  obtain ⟨hl, hr⟩ := cut_inj hs ht chars
  exact ⟨String.toList_injective hl, String.toList_injective hr⟩

lemma Honest.key_inj {held : List Package} (ok : Honest held) {p q : Package} (hp : p ∈ held)
    (hq : q ∈ held) (e : p.key = q.key) : p.1 = q.1 ∧ p.2.Same q.2 := by
  obtain ⟨hs, hg⟩ := gameKey_inj (ok.noColon p hp) (ok.noColon q hq) e
  exact ⟨hg, ok.agree p hp q hq hs⟩

lemma Honest.mono {held held' : List Package} (ok : Honest held) (sub : held' ⊆ held) :
    Honest held' where
  noColon q hq := ok.noColon q (sub hq)
  agree q hq r hr := ok.agree q (sub hq) r (sub hr)

/-! ## Adding to the cache -/

namespace GlobalDataPackageCache

lemma setWrapper_self (c : GlobalDataPackageCache) (key : String) (w : Option CachedGameDataPackage) :
    (c.setWrapper key w).byGameKey key = w := Function.update_self ..

lemma setWrapper_of_ne (c : GlobalDataPackageCache) {key other : String}
    (w : Option CachedGameDataPackage) (ne : other ≠ key) :
    (c.setWrapper key w).byGameKey other = c.byGameKey other := Function.update_of_ne ne ..

lemma mem_keysOf {c : GlobalDataPackageCache} {s key : String} :
    key ∈ c.keysOf s ↔ ∃ w, c.byGameKey key = some w ∧ w.checksum = s := Iff.rfl

/-- A wrapper of the same checksum in the place of another leaves the keys as they are. -/
lemma keysOf_setWrapper {c : GlobalDataPackageCache} {key : String} {w w' : CachedGameDataPackage}
    (h : c.byGameKey key = some w) (same : w'.checksum = w.checksum) (s : String) :
    (c.setWrapper key (some w')).keysOf s = c.keysOf s := by
  ext other
  rw [mem_keysOf, mem_keysOf]
  by_cases e : other = key
  · subst e
    rw [setWrapper_self, h]
    simp only [Option.some.injEq, exists_eq_left', same]
  · rw [setWrapper_of_ne c _ e]

/-- A new wrapper adds its key to those of its checksum. -/
lemma keysOf_setWrapper_new {c : GlobalDataPackageCache} {key : String} (h : c.byGameKey key = none)
    (w : CachedGameDataPackage) (s : String) :
    (c.setWrapper key (some w)).keysOf s =
      if w.checksum = s then insert key (c.keysOf s) else c.keysOf s := by
  ext other
  by_cases e : other = key
  · subst e
    rw [mem_keysOf, setWrapper_self]
    split
    · rename_i hs
      exact ⟨fun _ => Set.mem_insert _ _, fun _ => ⟨w, rfl, hs⟩⟩
    · rename_i hs
      constructor
      · rintro ⟨w', ew, hw⟩
        cases ew
        exact absurd hw hs
      · rintro ⟨w', ew, -⟩
        rw [h] at ew
        cases ew
  · rw [mem_keysOf, setWrapper_of_ne c _ e]
    split
    · exact ⟨fun m => Set.mem_insert_of_mem _ m, fun m => (Set.mem_insert_iff.mp m).resolve_left e⟩
    · exact Iff.rfl

/-- Without its wrapper a key is no longer one of its checksum. -/
lemma keysOf_setWrapper_none {c : GlobalDataPackageCache} (key s : String) :
    (c.setWrapper key none).keysOf s = c.keysOf s \ {key} := by
  ext other
  rw [Set.mem_sdiff, Set.mem_singleton_iff, mem_keysOf, mem_keysOf]
  by_cases e : other = key
  · subst e
    rw [setWrapper_self]
    simp
  · rw [setWrapper_of_ne c _ e]
    simp [e]

lemma keysOf_refer (c : GlobalDataPackageCache) (a : ℕ) (n : ℤ) (s : String) :
    (c.refer a n).keysOf s = c.keysOf s := rfl

lemma heap_refer_self (c : GlobalDataPackageCache) (a : ℕ) (n : ℤ) :
    (c.refer a n).heap a = { c.heap a with refCount := (c.heap a).refCount + n } :=
  Function.update_self ..

lemma heap_refer_of_ne (c : GlobalDataPackageCache) {a b : ℕ} (n : ℤ) (ne : b ≠ a) :
    (c.refer a n).heap b = c.heap b := Function.update_of_ne ne ..

lemma byChecksum_make_self (c : GlobalDataPackageCache) (s : String) (d : CachedDataPackage) :
    (c.make s d).byChecksum s = some c.made := Function.update_self ..

lemma byChecksum_make_of_ne (c : GlobalDataPackageCache) {s t : String} (d : CachedDataPackage)
    (ne : t ≠ s) : (c.make s d).byChecksum t = c.byChecksum t := Function.update_of_ne ne ..

lemma heap_make_self (c : GlobalDataPackageCache) (s : String) (d : CachedDataPackage) :
    (c.make s d).heap c.made = d := Function.update_self ..

lemma heap_make_of_ne (c : GlobalDataPackageCache) (s : String) (d : CachedDataPackage) {a : ℕ}
    (ne : a ≠ c.made) : (c.make s d).heap a = c.heap a := Function.update_of_ne ne ..

/-- Counting does not change the data. -/
lemma encodes_refer {c : GlobalDataPackageCache} {a b : ℕ} {gd : GameData} (n : ℤ)
    (h : (c.heap b).Encodes gd) : ((c.refer a n).heap b).Encodes gd := by
  by_cases e : b = a
  · subst e
    rw [heap_refer_self]
    exact ⟨h.encoded, h.items, h.locations⟩
  · rwa [heap_refer_of_ne c n e]

/-- A wrapper stays that of its data as long as its datapackage does. -/
lemma Wraps.mono {c c' : GlobalDataPackageCache} {w : CachedGameDataPackage} {p : Package}
    (h : c.Wraps w p) (found : c'.byChecksum p.2.checksum = some w.datapackage)
    (encodes : (c'.heap w.datapackage).Encodes p.2) : c'.Wraps w p :=
  ⟨h.checksum, h.name, h.response, found, encodes⟩

/-- A wrapper is that of every pair with its key. -/
lemma Wraps.same {c : GlobalDataPackageCache} {w : CachedGameDataPackage} {p q : Package}
    (h : c.Wraps w p) (name : p.1 = q.1) (same : p.2.Same q.2) : c.Wraps w q where
  checksum := h.checksum.trans same.checksum
  name := by rw [h.name, name]
  response := by rw [h.response, name, same.marshal_eq]
  found := same.checksum ▸ h.found
  encodes := h.encodes.same same

end GlobalDataPackageCache

open GlobalDataPackageCache

lemma Counts.keysOf_finite {c : GlobalDataPackageCache} {held : List Package} (h : Counts c held)
    (s : String) : (c.keysOf s).Finite := by
  apply (List.finite_toSet (held.map Package.key)).subset
  rintro key ⟨w, ew, -⟩
  exact h.keyed ew

/-- A wrapper in the cache is that of every pair with its key. -/
lemma Counts.wraps {c : GlobalDataPackageCache} {held all : List Package} (h : Counts c held)
    (ok : Honest all) (sub : held ⊆ all) {p : Package} (hp : p ∈ all) {w : CachedGameDataPackage}
    (ew : c.byGameKey p.key = some w) : c.Wraps w p := by
  obtain ⟨q, hq, key⟩ := List.mem_map.mp (h.keyed ew)
  obtain ⟨w', ew', wraps⟩ := h.wrapped q hq
  rw [key, ew] at ew'
  cases ew'
  obtain ⟨name, same⟩ := ok.key_inj (sub hq) hp key
  exact wraps.same name same

/-- A wrapper that stays is counted anew: what is held may change as long as the keys stay. -/
lemma Shares.recount {c : GlobalDataPackageCache} {held held' all : List Package} (h : Shares c held)
    (ok : Honest all) (sub : held ⊆ all) (sub' : held' ⊆ all) {key : String}
    (keys : ∀ k, k ∈ held.map Package.key ↔ k ∈ held'.map Package.key)
    (others : ∀ k, k ≠ key → (held.map Package.key).count k = (held'.map Package.key).count k)
    {w w' : CachedGameDataPackage} (ew : c.byGameKey key = some w)
    (same : w' = { w with refCount := (held'.map Package.key).count key }) :
    Shares (c.setWrapper key (some w')) held' := by
  have checksum : w'.checksum = w.checksum := by rw [same]
  refine ⟨⟨?_, ?_, ?_, ?_, ?_⟩, ?_⟩
  · intro q hq
    obtain ⟨r, hr, er⟩ := List.mem_map.mp ((keys q.key).mpr (List.mem_map_of_mem hq))
    obtain ⟨w₀, ew₀, -⟩ := h.wrapped r hr
    have wraps := h.toCounts.wraps ok sub (sub' hq) (er ▸ ew₀)
    by_cases e : q.key = key
    · rw [e, setWrapper_self]
      rw [er, e, ew] at ew₀
      cases ew₀
      rw [same]
      exact ⟨_, rfl, wraps.checksum, wraps.name, wraps.response, wraps.found, wraps.encodes⟩
    · rw [setWrapper_of_ne c _ e]
      exact ⟨w₀, er ▸ ew₀, wraps.mono wraps.found wraps.encodes⟩
  · intro k w₀ ew₀
    by_cases e : k = key
    · subst e
      rw [setWrapper_self] at ew₀
      cases ew₀
      rw [same]
    · rw [setWrapper_of_ne c _ e] at ew₀
      rw [← others k e]
      exact h.counted ew₀
  · intro k w₀ ew₀
    apply (keys k).mp
    by_cases e : k = key
    · rw [e]
      exact h.keyed ew
    · rw [setWrapper_of_ne c _ e] at ew₀
      exact h.keyed ew₀
  · intro s a ea
    obtain ⟨made, count⟩ := h.packaged ea
    rw [keysOf_setWrapper ew checksum]
    exact ⟨made, count⟩
  · exact h.apart
  · intro s a ea
    obtain ⟨r, hr, hs⟩ := h.wanted ea
    obtain ⟨q, hq, eq⟩ := List.mem_map.mp ((keys r.key).mp (List.mem_map_of_mem hr))
    obtain ⟨-, same⟩ := ok.key_inj (sub' hq) (sub hr) eq
    exact ⟨q, hq, same.checksum.trans hs⟩

/-- A wrapper has the datapackage of its checksum. -/
lemma Counts.byChecksum {c : GlobalDataPackageCache} {held : List Package} (h : Counts c held)
    {key : String} {w : CachedGameDataPackage} (ew : c.byGameKey key = some w) :
    c.byChecksum w.checksum = some w.datapackage := by
  obtain ⟨q, hq, rfl⟩ := List.mem_map.mp (h.keyed ew)
  obtain ⟨w', ew', wraps⟩ := h.wrapped q hq
  rw [ew] at ew'
  cases ew'
  rw [wraps.checksum]
  exact wraps.found

/-- A new datapackage has no wrappers yet. -/
lemma Counts.make {c : GlobalDataPackageCache} {held : List Package} (h : Counts c held) {s : String}
    (missing : c.byChecksum s = none) {d : CachedDataPackage} (zero : d.refCount = 0) :
    Counts (c.make s d) held := by
  have other : ∀ {t a}, c.byChecksum t = some a → t ≠ s ∧ a ≠ c.made := by
    intro t a ea
    have made := (h.packaged ea).1
    refine ⟨?_, by omega⟩
    rintro rfl
    rw [missing] at ea
    cases ea
  have old : ∀ {t a}, t ≠ s → (c.make s d).byChecksum t = some a → c.byChecksum t = some a := by
    intro t a ne ea
    rwa [byChecksum_make_of_ne c d ne] at ea
  have new : ∀ {a}, (c.make s d).byChecksum s = some a → a = c.made := by
    intro a ea
    rw [byChecksum_make_self] at ea
    exact (Option.some.inj ea).symm
  refine ⟨?_, h.counted, h.keyed, ?_, ?_⟩
  · intro q hq
    obtain ⟨w, ew, wraps⟩ := h.wrapped q hq
    obtain ⟨ne, old⟩ := other wraps.found
    refine ⟨w, ew, wraps.mono ?_ ?_⟩
    · exact (byChecksum_make_of_ne c d ne).trans wraps.found
    · rw [heap_make_of_ne c s d old]
      exact wraps.encodes
  · intro t a ea
    by_cases e : t = s
    · subst e
      have nothing : (c.make t d).keysOf t = ∅ := by
        rw [Set.eq_empty_iff_forall_notMem]
        rintro key ⟨w, ew, rfl⟩
        have found := h.byChecksum ew
        rw [missing] at found
        cases found
      rw [new ea, heap_make_self, zero, nothing, Set.ncard_empty]
      exact ⟨Nat.lt_succ_self _, rfl⟩
    · obtain ⟨made, count⟩ := h.packaged (old e ea)
      rw [heap_make_of_ne c s d (other (old e ea)).2]
      exact ⟨Nat.lt_succ_of_lt made, count⟩
  · intro t u a et eu
    by_cases e : t = s
    · by_cases e' : u = s
      · rw [e, e']
      · rw [e] at et
        exact absurd (new et) (other (old e' eu)).2
    · by_cases e' : u = s
      · rw [e'] at eu
        exact absurd (new eu) (other (old e et)).2
      · exact h.apart (old e et) (old e' eu)

/-- The datapackage of a checksum is there after it was looked for, and no other is new. -/
lemma Shares.find {c : GlobalDataPackageCache} {held : List Package} (h : Shares c held) {p : Package}
    (ok : Honest (p :: held)) :
    let r := c.find p.2.checksum p.2.marshal (idToName p.2.itemNameToID) (idToName p.2.locationNameToID)
    Counts r.1 held ∧ r.1.byGameKey = c.byGameKey ∧ r.1.byChecksum p.2.checksum = some r.2 ∧
      (r.1.heap r.2).Encodes p.2 ∧
      ∀ {s a}, r.1.byChecksum s = some a → s = p.2.checksum ∨ c.byChecksum s = some a := by
  unfold GlobalDataPackageCache.find
  cases e : c.byChecksum p.2.checksum with
  | some a =>
    obtain ⟨q, hq, hs⟩ := h.wanted e
    obtain ⟨w, -, wraps⟩ := h.wrapped q hq
    have same := ok.agree q (List.mem_cons_of_mem _ hq) p List.mem_cons_self hs
    have found := wraps.found
    rw [hs, e] at found
    cases found
    exact ⟨h.toCounts, rfl, e, wraps.encodes.same same, fun h => Or.inr h⟩
  | none =>
    refine ⟨h.toCounts.make e rfl, rfl, byChecksum_make_self .., ?_, ?_⟩
    · rw [heap_make_self]
      exact encodes_new p.2 0
    · intro s a ea
      by_cases hs : s = p.2.checksum
      · exact Or.inl hs
      · rw [byChecksum_make_of_ne c _ hs] at ea
        exact Or.inr ea

/-- A miss: a new wrapper of a datapackage that is there, which is counted once more. -/
lemma Counts.wrap {c : GlobalDataPackageCache} {held : List Package} (h : Counts c held) {p : Package}
    (missing : c.byGameKey p.key = none) {a : ℕ} (found : c.byChecksum p.2.checksum = some a)
    (encodes : (c.heap a).Encodes p.2) {w : CachedGameDataPackage}
    (new : w = ⟨a, p.2.checksum, marshalString p.1, singleResponse p.1 p.2.marshal, 1⟩) :
    Counts ((c.refer a 1).setWrapper p.key (some w)) (p :: held) := by
  have others : ∀ q ∈ held, q.key ≠ p.key := by
    intro q hq e
    obtain ⟨w', ew', -⟩ := h.wrapped q hq
    rw [e, missing] at ew'
    cases ew'
  refine ⟨?_, ?_, ?_, ?_, h.apart⟩
  · intro q hq
    rcases List.mem_cons.mp hq with rfl | hq
    · refine ⟨w, setWrapper_self .., ?_⟩
      rw [new]
      exact ⟨rfl, rfl, rfl, found, encodes_refer 1 encodes⟩
    · obtain ⟨w', ew', wraps⟩ := h.wrapped q hq
      rw [setWrapper_of_ne _ _ (others q hq)]
      exact ⟨w', ew', wraps.mono wraps.found (encodes_refer 1 wraps.encodes)⟩
  · intro key w' ew'
    by_cases e : key = p.key
    · subst e
      rw [setWrapper_self] at ew'
      cases ew'
      have absent : p.key ∉ held.map Package.key := by
        rintro mem
        obtain ⟨q, hq, eq⟩ := List.mem_map.mp mem
        exact others q hq eq
      rw [new, List.map_cons, List.count_cons_self, List.count_eq_zero_of_not_mem absent]
      rfl
    · rw [setWrapper_of_ne _ _ e] at ew'
      rw [List.map_cons, List.count_cons_of_ne (Ne.symm e)]
      exact h.counted ew'
  · intro key w' ew'
    by_cases e : key = p.key
    · rw [e]
      exact List.mem_cons_self
    · rw [setWrapper_of_ne _ _ e] at ew'
      exact List.mem_cons_of_mem _ (h.keyed ew')
  · intro s b eb
    obtain ⟨made, count⟩ := h.packaged eb
    refine ⟨made, ?_⟩
    have missing' : (c.refer a 1).byGameKey p.key = none := missing
    rw [keysOf_setWrapper_new missing', keysOf_refer]
    have checksum : w.checksum = p.2.checksum := by rw [new]
    show ((c.refer a 1).heap b).refCount = _
    by_cases e : b = a
    · subst e
      have hs : w.checksum = s := checksum.trans (h.apart found eb)
      have absent : p.key ∉ c.keysOf s := by
        rintro ⟨w', ew', -⟩
        rw [missing] at ew'
        cases ew'
      rw [heap_refer_self, if_pos hs, Set.ncard_insert_of_notMem absent (h.keysOf_finite s)]
      push_cast
      omega
    · have hs : w.checksum ≠ s := by
        rintro rfl
        have eb : c.byChecksum p.2.checksum = some b := checksum ▸ eb
        rw [found] at eb
        exact e (Option.some.inj eb).symm
      rw [heap_refer_of_ne c 1 e, if_neg hs]
      exact count

/-- What `GetOrAdd` does: one more is held, and the wrapper it returns is that of the data. -/
theorem Shares.getOrAdd {c : GlobalDataPackageCache} {held : List Package} (h : Shares c held)
    {p : Package} (ok : Honest (p :: held)) :
    let r := c.getOrAdd p.2.checksum p.1 p.2.marshal (idToName p.2.itemNameToID)
      (idToName p.2.locationNameToID)
    Shares r.1 (p :: held) ∧ r.1.Wraps r.2 p := by
  intro r
  have shares : Shares r.1 (p :: held) ∧ r.1.byGameKey p.key = some r.2 := by
    unfold r GlobalDataPackageCache.getOrAdd
    show _ ∧ GlobalDataPackageCache.byGameKey _ (gameKey p.2.checksum p.1) = _
    cases e : c.byGameKey (gameKey p.2.checksum p.1) with
    | some w =>
      refine ⟨?_, setWrapper_self ..⟩
      have key : p.key ∈ held.map Package.key := h.keyed e
      apply h.recount ok (List.subset_cons_self p held) (List.Subset.refl _) _ _ e
      · have count : w.refCount = _ := h.counted e
        rw [count, List.map_cons]
        show _ = CachedGameDataPackage.mk _ _ _ _ (((p.key :: _).count p.key : ℕ) : ℤ)
        rw [List.count_cons_self]
        push_cast
        rfl
      · intro k
        rw [List.map_cons, List.mem_cons]
        exact ⟨Or.inr, fun hk => hk.elim (fun e => e ▸ key) id⟩
      · intro k ne
        have ne : p.key ≠ k := Ne.symm ne
        rw [List.map_cons, List.count_cons_of_ne ne]
    | none =>
      have spec := h.find ok
      generalize c.find p.2.checksum p.2.marshal (idToName p.2.itemNameToID)
        (idToName p.2.locationNameToID) = f at spec ⊢
      obtain ⟨counts, kept, found, encodes, only⟩ := spec
      have encoded := (encodes_refer (a := f.2) 1 encodes).encoded
      refine ⟨⟨?_, ?_⟩, setWrapper_self ..⟩
      · apply counts.wrap (kept ▸ e) found encodes
        rw [← encoded]
      · intro s a ea
        rcases only ea with rfl | ea
        · exact ⟨p, List.mem_cons_self, rfl⟩
        · obtain ⟨q, hq, hs⟩ := h.wanted ea
          exact ⟨q, List.mem_cons_of_mem _ hq, hs⟩
  obtain ⟨shares, ew⟩ := shares
  exact ⟨shares, shares.toCounts.wraps ok (List.Subset.refl _) List.mem_cons_self ew⟩

/-! ## Taking out of the cache -/

/-- A datapackage that is counted is wanted. -/
lemma Counts.wanted {c : GlobalDataPackageCache} {held : List Package} (h : Counts c held)
    {s : String} {a : ℕ} (ea : c.byChecksum s = some a) (pos : 0 < (c.heap a).refCount) :
    ∃ q ∈ held, q.2.checksum = s := by
  have card : (c.keysOf s).ncard ≠ 0 := by
    have count := (h.packaged ea).2
    omega
  obtain ⟨key, w, ew, rfl⟩ := Set.nonempty_of_ncard_ne_zero card
  obtain ⟨q, hq, rfl⟩ := List.mem_map.mp (h.keyed ew)
  obtain ⟨w', ew', wraps⟩ := h.wrapped q hq
  rw [ew] at ew'
  cases ew'
  exact ⟨q, hq, wraps.checksum.symm⟩

/-- The last one that held a wrapper is gone, and so is the wrapper. -/
lemma Counts.unwrap {c : GlobalDataPackageCache} {held : List Package} {p : Package}
    (h : Counts c (p :: held)) (absent : p.key ∉ held.map Package.key) {w : CachedGameDataPackage}
    (ew : c.byGameKey p.key = some w) :
    Counts ((c.setWrapper p.key none).refer w.datapackage (-1)) held := by
  have found := h.byChecksum ew
  refine ⟨?_, ?_, ?_, ?_, h.apart⟩
  · intro q hq
    have ne : q.key ≠ p.key := fun e => absent (e ▸ List.mem_map_of_mem hq)
    obtain ⟨w', ew', wraps⟩ := h.wrapped q (List.mem_cons_of_mem _ hq)
    refine ⟨w', (setWrapper_of_ne c _ ne).trans ew', wraps.mono wraps.found ?_⟩
    exact @encodes_refer (c.setWrapper p.key none) _ _ _ _ wraps.encodes
  · intro key w' ew'
    by_cases e : key = p.key
    · subst e
      have ew' := (setWrapper_self c p.key none).symm.trans ew'
      cases ew'
    · have ew' := (setWrapper_of_ne c none e).symm.trans ew'
      rw [h.counted ew', List.map_cons, List.count_cons_of_ne (Ne.symm e)]
  · intro key w' ew'
    by_cases e : key = p.key
    · subst e
      have ew' := (setWrapper_self c p.key none).symm.trans ew'
      cases ew'
    · have ew' := (setWrapper_of_ne c none e).symm.trans ew'
      exact (List.mem_cons.mp (h.keyed ew')).resolve_left e
  · intro s a ea
    obtain ⟨made, count⟩ := h.packaged ea
    refine ⟨made, ?_⟩
    rw [keysOf_refer, keysOf_setWrapper_none]
    by_cases e : a = w.datapackage
    · subst e
      have hs : w.checksum = s := h.apart found ea
      have mem : p.key ∈ c.keysOf s := ⟨w, ew, hs⟩
      have card := Set.ncard_sdiff_singleton_add_one mem (h.keysOf_finite s)
      rw [heap_refer_self]
      show (c.heap w.datapackage).refCount + -1 = _
      omega
    · have notMem : p.key ∉ c.keysOf s := by
        rintro ⟨w', ew', rfl⟩
        rw [ew] at ew'
        cases ew'
        exact e (Option.some.inj (found.symm.trans ea)).symm
      rw [heap_refer_of_ne _ _ e, Set.sdiff_singleton_eq_self notMem]
      exact count

/-- A datapackage without wrappers is taken out. -/
lemma Counts.forget {c : GlobalDataPackageCache} {held : List Package} (h : Counts c held) {s : String}
    (unwanted : ∀ q ∈ held, q.2.checksum ≠ s) :
    Counts { c with byChecksum := Function.update c.byChecksum s none } held := by
  have old : ∀ {t a}, Function.update c.byChecksum s none t = some a → c.byChecksum t = some a := by
    intro t a ea
    by_cases e : t = s
    · rw [e, Function.update_self] at ea
      cases ea
    · rwa [Function.update_of_ne e] at ea
  refine ⟨?_, h.counted, h.keyed, ?_, ?_⟩
  · intro q hq
    obtain ⟨w, ew, wraps⟩ := h.wrapped q hq
    exact ⟨w, ew, wraps.mono ((Function.update_of_ne (unwanted q hq) ..).trans wraps.found) wraps.encodes⟩
  · intro t a ea
    exact h.packaged (old ea)
  · intro t u a et eu
    exact h.apart (old et) (old eu)

/-- What a turn of `Release` does: one less is held. -/
theorem Shares.releaseKey {c : GlobalDataPackageCache} {held : List Package} {p : Package}
    (h : Shares c (p :: held)) (ok : Honest (p :: held)) : Shares (c.releaseKey p.key) held := by
  obtain ⟨w, ew, wraps⟩ := h.wrapped p List.mem_cons_self
  have count : w.refCount = ((p.key :: held.map Package.key).count p.key : ℕ) := h.counted ew
  rw [List.count_cons_self] at count
  unfold GlobalDataPackageCache.releaseKey
  simp only [ew]
  split
  · have absent : p.key ∉ held.map Package.key := by
      intro mem
      have pos := List.count_pos_iff.mpr mem
      omega
    have counts := h.toCounts.unwrap absent ew
    have others : ∀ {s a}, c.byChecksum s = some a → s ≠ w.checksum →
        ∃ q ∈ held, q.2.checksum = s := by
      intro s a ea ne
      obtain ⟨q, hq, hs⟩ := h.wanted ea
      rcases List.mem_cons.mp hq with rfl | hq
      · exact absurd (hs.symm.trans wraps.checksum.symm) ne
      · exact ⟨q, hq, hs⟩
    have found := h.toCounts.byChecksum ew
    split
    · rename_i zero
      have unwanted : ∀ q ∈ held, q.2.checksum ≠ w.checksum := by
        intro q hq hs
        obtain ⟨w', ew', wraps'⟩ := counts.wrapped q hq
        have mem : q.key ∈ ((c.setWrapper p.key none).refer w.datapackage (-1)).keysOf w.checksum :=
          ⟨w', ew', wraps'.checksum.trans hs⟩
        have card := Set.ncard_ne_zero_of_mem mem (counts.keysOf_finite _)
        have count := (counts.packaged found).2
        omega
      refine ⟨counts.forget unwanted, ?_⟩
      intro s a ea
      by_cases e : s = w.checksum
      · rw [e] at ea
        have ea := (Function.update_self ..).symm.trans ea
        cases ea
      · exact others ((Function.update_of_ne e ..).symm.trans ea) e
    · rename_i pos
      refine ⟨counts, ?_⟩
      intro s a ea
      by_cases e : s = w.checksum
      · subst e
        have same : w.datapackage = a := Option.some.inj (found.symm.trans ea)
        exact counts.wanted ea (by rw [← same]; omega)
      · exact others ea e
  · have present : p.key ∈ held.map Package.key := by
      apply List.count_pos_iff.mp
      omega
    apply h.recount ok (List.Subset.refl _) (List.subset_cons_self p held) _ _ ew
    · have less : w.refCount - 1 = ((held.map Package.key).count p.key : ℕ) := by omega
      rw [less]
    · intro k
      rw [List.map_cons, List.mem_cons]
      exact ⟨fun hk => hk.elim (fun e => e ▸ present) id, Or.inr⟩
    · intro k ne
      rw [List.map_cons, List.count_cons_of_ne (Ne.symm ne)]

/-- What is held has no order. -/
lemma Shares.perm {c : GlobalDataPackageCache} {held held' : List Package} (h : Shares c held)
    (perm : held.Perm held') : Shares c held' where
  wrapped p hp := h.wrapped p (perm.mem_iff.mpr hp)
  counted ew := (perm.map Package.key).count_eq _ ▸ h.counted ew
  keyed ew := (perm.map Package.key).mem_iff.mp (h.keyed ew)
  packaged := h.packaged
  apart := h.apart
  wanted ea := by
    obtain ⟨p, hp, hs⟩ := h.wanted ea
    exact ⟨p, perm.mem_iff.mp hp, hs⟩

lemma shares_new : Shares newGlobalDataPackageCache [] where
  wrapped p hp := absurd hp List.not_mem_nil
  counted ew := by cases ew
  keyed ew := by cases ew
  packaged ea := by cases ea
  apart ea := by cases ea
  wanted ea := by cases ea

end ArchipelagoXL.Apx
