import ArchipelagoXL.Lib.Interleave
import ArchipelagoXL.Lib.WalkMap
import Mathlib.Data.Finset.Card

/-!
# The sphere cache

A room shows for each slot which locations of its spheres are checked (`apx/api.go`). What was computed for a
slot is kept until it is marked as dirty. A poller fetches the checked locations, marks the slots for which
their number has changed, and replaces the map last; requests look into the cache, read the checked locations of
a slot, compute, and store. Each of these accesses is a step of its own, and any number of
refreshes and requests run at once.

An entry that is not dirty is what would be computed now as long as two things are kept (`Timely`): a
refresh that changes what is shown of a slot finds its entry dirty, and a request stores what nothing
has overtaken. The code sees to neither: it marks slots before it replaces the map, compares numbers
only, and does not look again before it stores. A step that breaks one of the two leaves a stale
entry (`cache_fresh_iff_timely`).

What is kept in the cache is the encoded response; the encoding is left out.
-/

namespace ArchipelagoXL.Apx

open Interleave

/-- Go `LocationEntry`. -/
structure LocationEntry where
  id : ℤ
  name : String
  checked : Bool
deriving DecidableEq

/-- Go `SphereResult`. -/
structure SphereResult where
  locations : List LocationEntry
  total : ℕ
  checked : ℕ
deriving DecidableEq

/-- What requests read of a room and nothing changes: the game of each slot, the names of locations, and
the locations of each slot in each sphere. -/
structure SphereRoom where
  game : ℤ → Option String
  locationIDToName : String → Option (ℤ → Option String)
  spheres : List (ℤ → Option (List ℤ))

/-- Go conversion to `int32`. -/
def toInt32 (n : ℤ) : ℤ := (n + 2147483648) % 4294967296 - 2147483648

/-- The entry of a location; an unknown one has no name. -/
def locationEntry (names : ℤ → Option String) (checkedLocations : Finset ℤ) (id : ℤ) : LocationEntry :=
  ⟨id, (names id).getD "", decide (id ∈ checkedLocations)⟩

/-- What is computed for one sphere. -/
def sphereResult (names : ℤ → Option String) (checkedLocations : Finset ℤ) (locIDs : List ℤ) :
    SphereResult where
  locations := locIDs.map (locationEntry names checkedLocations)
  total := locIDs.length
  checked := locIDs.countP fun id => decide (id ∈ checkedLocations)

/-- The response for a slot, from its checked locations. -/
def SphereRoom.response (room : SphereRoom) (slotId : ℤ) (names : ℤ → Option String)
    (checkedLocations : Finset ℤ) : List SphereResult :=
  room.spheres.filterMap fun sphere =>
    (sphere (toInt32 slotId)).map (sphereResult names checkedLocations)

/-- The names of the locations of a slot: those of its game, if the room has its datapackage. -/
def SphereRoom.names (room : SphereRoom) (slotId : ℤ) : Option (ℤ → Option String) :=
  (room.game slotId).bind room.locationIDToName

/-- What refreshes and requests share: Go `CheckedLocations` and `slotSphereCache`, and the time of the
last activity. -/
structure Progress where
  checkedLocations : ℤ → Finset ℤ
  data : ℤ → Option (List SphereResult)
  dirty : ℤ → Bool
  lastActivity : ℤ

/-- The state of a new room. -/
def Progress.new (now : ℤ) : Progress := ⟨fun _ => ∅, fun _ => none, fun _ => false, now⟩

/-- Go `slotSphereCache.Get`. -/
def Progress.cached (w : Progress) (slotId : ℤ) : Option (List SphereResult) :=
  if w.dirty slotId then none else w.data slotId

/-- Go `slotSphereCache.Set`. -/
def Progress.store (w : Progress) (slotId : ℤ) (b : List SphereResult) : Progress :=
  { w with
    data := Function.update w.data slotId (some b)
    dirty := Function.update w.dirty slotId false }

/-- Go `Invalidate`. -/
def Progress.invalidate (w : Progress) (slotId : ℤ) : Progress :=
  { w with dirty := Function.update w.dirty slotId true }

/-- What a fetched map has for a slot. -/
def slotLocations (newChecked : WalkMap ℤ (Finset ℤ)) (slotId : ℤ) : Finset ℤ :=
  ((newChecked.entries.find? fun e => decide (e.1 = slotId)).map Prod.snd).getD ∅

/-- Go `CheckedLocations.Set`. -/
def Progress.replace (w : Progress) (newChecked : WalkMap ℤ (Finset ℤ)) : Progress :=
  { w with checkedLocations := slotLocations newChecked }

/-- What a request has served so far. -/
abbrev Served := List (ℤ × List SphereResult)

/-- Where a thread is: between its calls, at the steps of `refreshCheckedLocations`, or at those of a request
for the slots that are left. A request for one slot and one for all differ in what they do with a
slot that they cannot show. -/
inductive SpherePc where
  | idle
  | look (newChecked : WalkMap ℤ (Finset ℤ)) (slotId : ℤ) (newLocs : Finset ℤ)
    (todo : List (ℤ × Finset ℤ)) (anyNewLocations : Bool)
  | invalidate (newChecked : WalkMap ℤ (Finset ℤ)) (slotId : ℤ) (todo : List (ℤ × Finset ℤ))
  | touch (newChecked : WalkMap ℤ (Finset ℤ))
  | replace (newChecked : WalkMap ℤ (Finset ℤ))
  | get (one : Bool) (slotId : ℤ) (todo : List ℤ) (served : Served)
  | read (one : Bool) (slotId : ℤ) (names : ℤ → Option String) (todo : List ℤ) (served : Served)
  | store (one : Bool) (slotId : ℤ) (names : ℤ → Option String) (checkedLocations : Finset ℤ)
    (todo : List ℤ) (served : Served)
  | refreshed
  | responded (served : Served)
  | notFound (error : String)

/-- The calls; a refresh comes with what it has fetched, a request for all with the order of its walk. -/
inductive SphereInput where
  | refresh (newChecked : WalkMap ℤ (Finset ℤ))
  | spheresForSlot (slotId : ℤ)
  | allSpheres (slots : List ℤ)
  | go
  | clock (now : ℤ)

/-- The next turn of the loop of a refresh, or what comes after it. -/
def afterLook (newChecked : WalkMap ℤ (Finset ℤ)) (todo : List (ℤ × Finset ℤ))
    (anyNewLocations : Bool) : SpherePc :=
  match todo with
  | e :: todo => .look newChecked e.1 e.2 todo anyNewLocations
  | [] => if anyNewLocations then .touch newChecked else .replace newChecked

/-- The next slot of a request. -/
def nextSlot (one : Bool) (todo : List ℤ) (served : Served) : SpherePc :=
  match todo with
  | slotId :: todo => .get one slotId todo served
  | [] => .responded served

/-- What a request goes on with when a slot is not in the cache. -/
def SphereRoom.afterMiss (room : SphereRoom) (one : Bool) (slotId : ℤ) (todo : List ℤ) (served : Served) :
    SpherePc :=
  match room.game slotId, room.names slotId with
  | none, _ => if one then .notFound "slot not found" else nextSlot one todo served
  | some _, none => if one then .notFound "datapackage not found" else nextSlot one todo served
  | some _, some names => .read one slotId names todo served

/-- One step of a thread. -/
def sphereMachine (room : SphereRoom) : Machine Progress SpherePc SphereInput := fun _ w pc x =>
  match pc, x with
  | .idle, .refresh newChecked => some (w, afterLook newChecked newChecked.entries false)
  | .idle, .spheresForSlot slotId => some (w, .get true slotId [] [])
  | .idle, .allSpheres slots => some (w, nextSlot false slots [])
  | .look newChecked slotId newLocs todo anyNewLocations, .go =>
    if (w.checkedLocations slotId).card ≠ newLocs.card then some (w, .invalidate newChecked slotId todo)
    else some (w, afterLook newChecked todo anyNewLocations)
  | .invalidate newChecked slotId todo, .go =>
    some (w.invalidate slotId, afterLook newChecked todo true)
  | .touch newChecked, .clock now => some ({ w with lastActivity := now }, .replace newChecked)
  | .replace newChecked, .go => some (w.replace newChecked, .refreshed)
  | .get one slotId todo served, .go =>
    match w.cached slotId with
    | some b => some (w, nextSlot one todo (served ++ [(slotId, b)]))
    | none => some (w, room.afterMiss one slotId todo served)
  | .read one slotId names todo served, .go =>
    some (w, .store one slotId names (w.checkedLocations slotId) todo served)
  | .store one slotId names checkedLocations todo served, .go =>
    let b := room.response slotId names checkedLocations
    some (w.store slotId b, nextSlot one todo (served ++ [(slotId, b)]))
  | _, _ => none

/-- No refresh and no request is in progress. -/
def SpherePc.done : SpherePc → Bool
  | .idle | .refreshed | .responded _ | .notFound _ => true
  | _ => false

/-- An entry that is not dirty is the response from the checked locations as they are. -/
def Progress.Fresh (w : Progress) (room : SphereRoom) : Prop :=
  ∀ slotId b, w.cached slotId = some b →
    ∃ names, room.names slotId = some names ∧
      b = room.response slotId names (w.checkedLocations slotId)

/-- The same locations of the spheres of a slot are checked. -/
def SphereRoom.SameProgress (room : SphereRoom) (slotId : ℤ) (locs locs' : Finset ℤ) : Prop :=
  ∀ sphere ∈ room.spheres, ∀ id ∈ (sphere (toInt32 slotId)).getD [], id ∈ locs ↔ id ∈ locs'

instance (room : SphereRoom) (slotId : ℤ) (locs locs' : Finset ℤ) :
    Decidable (room.SameProgress slotId locs locs') :=
  inferInstanceAs (Decidable (∀ sphere ∈ room.spheres, ∀ id ∈ (sphere (toInt32 slotId)).getD [],
    id ∈ locs ↔ id ∈ locs'))

/-- A refresh that changes what is shown of a slot finds its entry dirty, or none, and a request stores what
is still so. -/
def Timely (room : SphereRoom) : Cond Progress SpherePc SphereInput := fun _ s i _ =>
  match s.pc i with
  | .replace newChecked => ∀ slotId, (s.shared.cached slotId).isSome →
      room.SameProgress slotId (s.shared.checkedLocations slotId) (slotLocations newChecked slotId)
  | .store _ slotId _ checkedLocations _ _ =>
    room.SameProgress slotId checkedLocations (s.shared.checkedLocations slotId)
  | _ => True

/-- Nothing has been computed yet. -/
def sphereInit (now : ℤ) : Conf Progress SpherePc := ⟨.new now, fun _ => .idle⟩

/-! ## Responses -/

lemma sphereResult_eq_iff (names : ℤ → Option String) (locs locs' : Finset ℤ) (ids : List ℤ) :
    sphereResult names locs ids = sphereResult names locs' ids ↔ ∀ id ∈ ids, id ∈ locs ↔ id ∈ locs' := by
  constructor
  · intro same id hid
    have entries : ids.map (locationEntry names locs) = ids.map (locationEntry names locs') :=
      congrArg SphereResult.locations same
    have entry := List.map_inj_left.mp entries id hid
    exact decide_eq_decide.mp (congrArg LocationEntry.checked entry)
  · intro same
    have entries : ids.map (locationEntry names locs) = ids.map (locationEntry names locs') := by
      apply List.map_inj_left.mpr
      intro id hid
      rw [locationEntry, locationEntry, decide_eq_decide.mpr (same id hid)]
    have count : ids.countP (fun id => decide (id ∈ locs)) = ids.countP fun id => decide (id ∈ locs') := by
      apply List.countP_congr
      intro id hid
      rw [decide_eq_true_eq, decide_eq_true_eq]
      exact same id hid
    rw [sphereResult, sphereResult, entries, count]

/-- Two responses for a slot are the same exactly if the same locations of its spheres are checked. -/
lemma SphereRoom.response_eq_iff (room : SphereRoom) (slotId : ℤ) (names : ℤ → Option String)
    (locs locs' : Finset ℤ) :
    room.response slotId names locs = room.response slotId names locs' ↔
      room.SameProgress slotId locs locs' := by
  unfold SphereRoom.response SphereRoom.SameProgress
  induction room.spheres with
  | nil => simp
  | cons sphere spheres ih =>
    rw [List.forall_mem_cons, ← ih]
    cases e : sphere (toInt32 slotId) with
    | none =>
      rw [List.filterMap_cons_none (by rw [e]; rfl), List.filterMap_cons_none (by rw [e]; rfl)]
      simp
    | some ids =>
      rw [List.filterMap_cons_some (by rw [e]; rfl), List.filterMap_cons_some (by rw [e]; rfl),
        List.cons.injEq, sphereResult_eq_iff]
      rfl

lemma SphereRoom.SameProgress.symm {room : SphereRoom} {slotId : ℤ} {locs locs' : Finset ℤ}
    (h : room.SameProgress slotId locs locs') : room.SameProgress slotId locs' locs :=
  fun sphere hs id hid => (h sphere hs id hid).symm

/-! ## One step -/

/-- A request computes with the names of the game of its slot. -/
def SpherePc.Named (room : SphereRoom) : SpherePc → Prop
  | .read _ slotId names _ _ => room.names slotId = some names
  | .store _ slotId names _ _ _ => room.names slotId = some names
  | _ => True

lemma named_afterLook (room : SphereRoom) (newChecked : WalkMap ℤ (Finset ℤ)) (todo : List (ℤ × Finset ℤ))
    (anyNewLocations : Bool) : (afterLook newChecked todo anyNewLocations).Named room := by
  cases todo with
  | nil => cases anyNewLocations <;> trivial
  | cons e todo => trivial

lemma named_nextSlot (room : SphereRoom) (one : Bool) (todo : List ℤ) (served : Served) :
    (nextSlot one todo served).Named room := by
  cases todo <;> trivial

lemma named_afterMiss (room : SphereRoom) (one : Bool) (slotId : ℤ) (todo : List ℤ) (served : Served) :
    (room.afterMiss one slotId todo served).Named room := by
  have skip : ∀ error, (if one = true then SpherePc.notFound error else nextSlot one todo served).Named
      room := by
    intro error
    split
    · trivial
    · exact named_nextSlot room one todo served
  unfold SphereRoom.afterMiss
  cases room.game slotId with
  | none => exact skip _
  | some _ =>
    cases e : room.names slotId with
    | none => exact skip _
    | some names => exact e

lemma Progress.cached_store_self (w : Progress) (slotId : ℤ) (b : List SphereResult) :
    (w.store slotId b).cached slotId = some b := by
  simp [Progress.cached, Progress.store]

lemma Progress.cached_store_of_ne (w : Progress) {slotId other : ℤ} (b : List SphereResult)
    (ne : other ≠ slotId) : (w.store slotId b).cached other = w.cached other := by
  simp [Progress.cached, Progress.store, ne]

/-- What is cached after a slot was marked was cached before. -/
lemma Progress.cached_invalidate {w : Progress} {slotId other : ℤ} {b : List SphereResult}
    (h : (w.invalidate slotId).cached other = some b) : w.cached other = some b := by
  by_cases e : other = slotId
  · subst e
    simp [Progress.cached, Progress.invalidate] at h
  · simpa [Progress.cached, Progress.invalidate, e] using h

/-- What a step can do: replace the map, store a response, or at most mark slots as dirty. -/
inductive SphereStep (room : SphereRoom) (w : Progress) (pc : SpherePc) : Progress → SpherePc → Prop where
  | replace {newChecked} (at_ : pc = .replace newChecked) :
    SphereStep room w pc (w.replace newChecked) .refreshed
  | store {one slotId names checkedLocations todo served}
    (at_ : pc = .store one slotId names checkedLocations todo served) {pc'} (named : pc'.Named room) :
    SphereStep room w pc (w.store slotId (room.response slotId names checkedLocations)) pc'
  | other {w' pc'} (free : ∀ tr s i x, s.pc i = pc → Timely room tr s i x)
    (locations : w'.checkedLocations = w.checkedLocations)
    (cached : ∀ slotId b, w'.cached slotId = some b → w.cached slotId = some b)
    (named : pc.Named room → pc'.Named room) : SphereStep room w pc w' pc'

lemma sphereMachine_cases {room : SphereRoom} {i : ℕ} {w w' : Progress} {pc pc' : SpherePc}
    {x : SphereInput} (h : sphereMachine room i w pc x = some (w', pc')) :
    SphereStep room w pc w' pc' := by
  have same : ∀ {pc' : SpherePc}, (∀ tr s i x, s.pc i = pc → Timely room tr s i x) →
      (pc.Named room → pc'.Named room) → SphereStep room w pc w pc' :=
    fun free named => .other free rfl (fun _ _ h => h) named
  unfold sphereMachine at h
  split at h
  · cases h
    exact same (fun tr s i x e => by simp [Timely, e]) fun _ => named_afterLook room _ _ _
  · cases h
    exact same (fun tr s i x e => by simp [Timely, e]) fun _ => trivial
  · cases h
    exact same (fun tr s i x e => by simp [Timely, e]) fun _ => named_nextSlot room _ _ _
  · split at h
    · cases h
      exact same (fun tr s i x e => by simp [Timely, e]) fun _ => trivial
    · cases h
      exact same (fun tr s i x e => by simp [Timely, e]) fun _ => named_afterLook room _ _ _
  · cases h
    exact .other (fun tr s i x e => by simp [Timely, e]) rfl
      (fun _ _ h => Progress.cached_invalidate h) fun _ => named_afterLook room _ _ _
  · cases h
    exact .other (fun tr s i x e => by simp [Timely, e]) rfl (fun _ _ h => h) fun _ => trivial
  · cases h
    exact .replace rfl
  · split at h
    · cases h
      exact same (fun tr s i x e => by simp [Timely, e]) fun _ => named_nextSlot room _ _ _
    · cases h
      exact same (fun tr s i x e => by simp [Timely, e]) fun _ => named_afterMiss room _ _ _ _
  · cases h
    exact same (fun tr s i x e => by simp [Timely, e]) id
  · cases h
    exact .store rfl (named_nextSlot room _ _ _)
  · cases h

/-- All threads compute with the right names. -/
lemma named_of_run {room : SphereRoom} {now : ℤ} {C : Cond Progress SpherePc SphereInput} {tr s}
    (run : Run (sphereMachine room) C (sphereInit now) tr s) : ∀ i, (s.pc i).Named room := by
  refine (run.everyThread (J := fun _ => True) (P := fun _ pc => pc.Named room) trivial (fun _ => trivial)
    fun _ named st => ⟨trivial, ?_, fun _ other => other⟩).2
  cases sphereMachine_cases st with
  | replace at_ => trivial
  | store at_ named => exact named
  | other _ _ _ keeps => exact keeps named

/-- A step keeps the cache fresh exactly if it is timely. -/
lemma fresh_step_iff {room : SphereRoom} {tr : List (Event SpherePc SphereInput)}
    {s : Conf Progress SpherePc} {i : ℕ} {x : SphereInput} {w : Progress} {p : SpherePc}
    (named : (s.pc i).Named room) (fresh : s.shared.Fresh room)
    (st : sphereMachine room i s.shared (s.pc i) x = some (w, p)) :
    w.Fresh room ↔ Timely room tr s i x := by
  cases sphereMachine_cases st with
  | other free locations cached _ =>
    refine ⟨fun _ => free tr s i x rfl, fun _ => ?_⟩
    intro slotId b hb
    rw [locations]
    exact fresh slotId b (cached slotId b hb)
  | @replace newChecked at_ =>
    rw [Timely, at_]
    constructor
    · intro after slotId some
      obtain ⟨b, hb⟩ := Option.isSome_iff_exists.mp some
      obtain ⟨names, hn, rfl⟩ := fresh slotId b hb
      obtain ⟨names', hn', same⟩ := after slotId _ hb
      rw [hn] at hn'
      cases hn'
      exact (room.response_eq_iff slotId names _ _).mp same
    · intro timely slotId b hb
      obtain ⟨names, hn, rfl⟩ := fresh slotId b hb
      refine ⟨names, hn, (room.response_eq_iff slotId names _ _).mpr ?_⟩
      exact timely slotId (Option.isSome_iff_exists.mpr ⟨_, hb⟩)
  | @store one slotId names checkedLocations todo served at_ _ =>
    rw [at_] at named
    rw [Timely, at_]
    constructor
    · intro after
      obtain ⟨names', hn', same⟩ := after slotId _ (Progress.cached_store_self _ _ _)
      have same_names : names = names' := Option.some.inj (named.symm.trans hn')
      subst same_names
      exact (room.response_eq_iff slotId names _ _).mp same
    · intro timely other b hb
      by_cases e : other = slotId
      · subst e
        rw [Progress.cached_store_self] at hb
        cases hb
        exact ⟨names, named, (room.response_eq_iff other names _ _).mpr timely⟩
      · rw [Progress.cached_store_of_ne _ _ e] at hb
        exact fresh other b hb

/-! ## All runs -/

/-- The cache never serves stale progress as long as all steps are timely, and a step that is not makes it
stale. -/
theorem cache_fresh_iff_timely (room : SphereRoom) (now : ℤ) :
    (∀ tr s, Run (sphereMachine room) (Timely room) (sphereInit now) tr s → s.shared.Fresh room) ∧
      ∀ tr s i x w p, Run (sphereMachine room) Cond.any (sphereInit now) tr s → s.shared.Fresh room →
        sphereMachine room i s.shared (s.pc i) x = some (w, p) →
        (w.Fresh room ↔ Timely room tr s i x) := by
  constructor
  · intro tr s run
    induction run with
    | nil =>
      intro slotId b h
      cases h
    | cons run timely st fresh => exact (fresh_step_iff (named_of_run run _) fresh st).mpr timely
  · intro tr s i x w p run fresh st
    exact fresh_step_iff (named_of_run run i) fresh st

/-- A room with one slot and one location in its only sphere. -/
def chestRoom : SphereRoom where
  game slotId := if slotId = 1 then some "Zelda" else none
  locationIDToName game := if game = "Zelda" then some fun _ => some "Chest" else none
  spheres := [fun slotId => if slotId = 1 then some [10] else none]

/-- The slot has checked its location. -/
def chestChecked : WalkMap ℤ (Finset ℤ) := ⟨[(1, {10})], by decide⟩

/-- A request for the slot, alone. -/
def requestAlone : List (ℕ × SphereInput) :=
  [(1, .spheresForSlot 1), (1, .go), (1, .go), (1, .go)]

/-- A refresh that is overtaken: the request comes after the slot was marked and before the map is
replaced. -/
def requestBetween : List (ℕ × SphereInput) :=
  [(0, .refresh chestChecked), (0, .go), (0, .go)] ++ requestAlone ++ [(0, .clock 7), (0, .go)]

/-- Steps that are seen to be timely. -/
def timelyBy (room : SphereRoom) (s : Conf Progress SpherePc) (i : ℕ) (_ : SphereInput) : Bool :=
  match s.pc i with
  | .replace _ => false
  | .store _ slotId _ checkedLocations _ _ =>
    decide (room.SameProgress slotId checkedLocations (s.shared.checkedLocations slotId))
  | _ => true

lemma timely_of_timelyBy {room : SphereRoom} {tr : List (Event SpherePc SphereInput)}
    {s : Conf Progress SpherePc} {i : ℕ} {x : SphereInput} (h : timelyBy room s i x = true) :
    Timely room tr s i x := by
  unfold timelyBy at h
  unfold Timely
  split at h
  · cases h
  · exact of_decide_eq_true h
  · trivial

theorem requestAlone_fresh :
    (finalOf (sphereMachine chestRoom) (sphereInit 0) requestAlone).shared.Fresh chestRoom := by
  apply (cache_fresh_iff_timely chestRoom 0).1 (traceOf _ _ _)
  have checked : checked (sphereMachine chestRoom) (timelyBy chestRoom) (sphereInit 0) requestAlone =
      true := by decide
  exact exec_run_checked timely_of_timelyBy checked

/-- Nothing is in progress, and the cache says that the location is not checked. -/
theorem requestBetween_stale :
    ¬∀ room now tr s, Run (sphereMachine room) Cond.any (sphereInit now) tr s →
      (∀ i, (s.pc i).done = true) → s.shared.Fresh room := by
  intro h
  have ok : (exec (sphereMachine chestRoom) (sphereInit 0) [] requestBetween).isSome = true := by decide
  have quiet : ∀ i,
      ((finalOf (sphereMachine chestRoom) (sphereInit 0) requestBetween).pc i).done = true := by
    refine finalOf_forall (P := fun _ (pc : SpherePc) => pc.done = true) (b := 2) (fun _ => rfl) ?_ ?_
    · decide
    · decide
  obtain ⟨names, hn, same⟩ := h chestRoom 0 _ _ (exec_run_any ok) quiet 1
    [⟨[⟨10, "Chest", false⟩], 1, 0⟩] (by decide)
  cases hn
  revert same
  decide

end ArchipelagoXL.Apx
