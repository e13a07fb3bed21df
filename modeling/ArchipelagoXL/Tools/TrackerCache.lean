import ArchipelagoXL.Lib.Interleave
import ArchipelagoXL.Lib.Uuid

/-!
# The cache of the dashboard

The dashboard of a room shows the settings of its slots: which tags and slots are excluded and who has the full
feed. `get_tracker_info` (`community-ap-tools/src/review/api/review.rs`) fetches them from APX and keeps what it
shows; the proxies that change them (`community-ap-tools/src/main.rs`) take it out of the cache after APX has
answered. Both know the room by the text that stands in their own URL, and APX by its canonical text.

A request holds the lock of the cache from its look into it until it has stored, so what is under the canonical text
is never older than a change that has been answered. What a request has stored under another text of the room is
not taken out by any change (`changes_shown_at_once`).

Changes of a room are counted for the record: how many were made, and the last one after which the cache was
invalidated and the last one that was answered.
-/

namespace ArchipelagoXL.Tools

open Interleave

/-- What is shown of the settings, with the number of changes that had been made when they were fetched; none if the
fetch failed and the defaults are shown. -/
structure SlotSettings (S : Type) where
  settings : S
  fetched : Option ℕ
deriving DecidableEq

/-- APX, the cache and its lock. -/
structure Dashboard (S : Type) where
  settings : Uuid → S
  trackerInfoCache : String → Option (SlotSettings S)
  holder : Option ℕ
  made : Uuid → ℕ
  invalidated : Uuid → ℕ
  answered : Uuid → ℕ

/-- Where a request is. One for the settings carries the last change that was answered when it began, a proxy the
change it has made, if APX made it. -/
inductive DashboardPc (S : Type) where
  | idle
  | asking (lobbyRoomId : String) (room : Uuid) (since : ℕ)
  | fetching (lobbyRoomId : String) (room : Uuid) (since : ℕ)
  | storing (lobbyRoomId : String) (room : Uuid) (since : ℕ) (shown : SlotSettings S)
  | showed (since : ℕ) (shown : SlotSettings S)
  | refused
  | proxying (lobbyRoomId : String)
  | proxied (lobbyRoomId : String) (change : Option (Uuid × ℕ))
  | invalidated (change : Option (Uuid × ℕ))
  | answered
deriving DecidableEq

/-- The requests, and what decides about their steps: the clock, failures, and what a change does to the settings. -/
inductive DashboardInput (S : Type) where
  | getTrackerInfo (lobbyRoomId : String)
  | lock (expired : Bool)
  | refuse
  | fetch (failed : Bool)
  | store
  | proxy (lobbyRoomId : String)
  | apply (change : S → S) (succeeds : Bool)
  | invalidate
  | answer

section
variable {S : Type}

/-- A change of a room is made. -/
def Dashboard.change (w : Dashboard S) (room : Uuid) (change : S → S) : Dashboard S :=
  { w with
    settings := Function.update w.settings room (change (w.settings room))
    made := Function.update w.made room (w.made room + 1) }

/-- The number of a change, if it is one of this room. -/
def changeOf (room : Uuid) : Option (Uuid × ℕ) → ℕ
  | some (changed, n) => if changed = room then n else 0
  | none => 0

/-- The cache forgets a text, after a change. -/
def Dashboard.invalidate (w : Dashboard S) (lobbyRoomId : String) (change : Option (Uuid × ℕ)) : Dashboard S :=
  { w with
    trackerInfoCache := Function.update w.trackerInfoCache lobbyRoomId none
    invalidated := fun room => max (w.invalidated room) (changeOf room change) }

/-- A change is answered. -/
def Dashboard.answer (w : Dashboard S) (change : Option (Uuid × ℕ)) : Dashboard S :=
  { w with answered := fun room => max (w.answered room) (changeOf room change) }

/-- A request stores what it shows and gives the lock back. -/
def Dashboard.store (w : Dashboard S) (lobbyRoomId : String) (shown : SlotSettings S) : Dashboard S :=
  { w with trackerInfoCache := Function.update w.trackerInfoCache lobbyRoomId (some shown), holder := none }

/-- What `get_tracker_info` gets from APX. -/
def Dashboard.fetchRoomState (default : S) (w : Dashboard S) (room : Uuid) (failed : Bool) : SlotSettings S :=
  if failed then ⟨default, none⟩ else ⟨w.settings room, some (w.made room)⟩

/-- A request that finds an answer in the cache under another text than the canonical one finds one that was fetched
after the last change of the room. -/
def NoStaleForm (w : Dashboard S) (pc : DashboardPc S) (x : DashboardInput S) : Prop :=
  ∀ lobbyRoomId room since shown n, pc = .asking lobbyRoomId room since → x = .lock false →
    w.trackerInfoCache lobbyRoomId = some shown → lobbyRoomId ≠ room.text → shown.fetched = some n → w.made room ≤ n

variable {default : S} {i : ℕ} {w w' : Dashboard S} {pc pc' : DashboardPc S} {x : DashboardInput S}

/-- What a step can do. -/
inductive DashboardStep (default : S) (i : ℕ) (w : Dashboard S) :
    DashboardPc S → DashboardInput S → Dashboard S → DashboardPc S → Prop where
  | ask {lobbyRoomId room} (parsed : Uuid.parseStr lobbyRoomId = some room) :
    DashboardStep default i w .idle (.getTrackerInfo lobbyRoomId) w (.asking lobbyRoomId room (w.answered room))
  | hit {lobbyRoomId room since shown} (found : w.trackerInfoCache lobbyRoomId = some shown) :
    DashboardStep default i w (.asking lobbyRoomId room since) (.lock false) w (.showed since shown)
  | miss {lobbyRoomId room since expired} (free : w.holder = none) :
    DashboardStep default i w (.asking lobbyRoomId room since) (.lock expired) { w with holder := some i }
      (.fetching lobbyRoomId room since)
  | refuse {lobbyRoomId room since} :
    DashboardStep default i w (.fetching lobbyRoomId room since) .refuse { w with holder := none } .refused
  | fetch {lobbyRoomId room since failed} :
    DashboardStep default i w (.fetching lobbyRoomId room since) (.fetch failed) w
      (.storing lobbyRoomId room since (w.fetchRoomState default room failed))
  | store {lobbyRoomId room since shown} :
    DashboardStep default i w (.storing lobbyRoomId room since shown) .store (w.store lobbyRoomId shown)
      (.showed since shown)
  | proxy {lobbyRoomId} : DashboardStep default i w .idle (.proxy lobbyRoomId) w (.proxying lobbyRoomId)
  | change {lobbyRoomId room change} (known : room.text = lobbyRoomId) :
    DashboardStep default i w (.proxying lobbyRoomId) (.apply change true) (w.change room change)
      (.proxied lobbyRoomId (some (room, w.made room + 1)))
  | fails {lobbyRoomId change succeeds} :
    DashboardStep default i w (.proxying lobbyRoomId) (.apply change succeeds) w (.proxied lobbyRoomId none)
  | invalidate {lobbyRoomId change} (free : w.holder = none) :
    DashboardStep default i w (.proxied lobbyRoomId change) .invalidate (w.invalidate lobbyRoomId change)
      (.invalidated change)
  | answer {change} : DashboardStep default i w (.invalidated change) .answer (w.answer change) .answered

/-- What a thread knows of the dashboard. -/
def Knows (i : ℕ) (w : Dashboard S) : DashboardPc S → Prop
  | .asking lobbyRoomId room since => Uuid.parseStr lobbyRoomId = some room ∧ since ≤ w.answered room
  | .fetching lobbyRoomId room since =>
    Uuid.parseStr lobbyRoomId = some room ∧ since ≤ w.answered room ∧ w.holder = some i
  | .storing lobbyRoomId room since shown =>
    Uuid.parseStr lobbyRoomId = some room ∧ since ≤ w.answered room ∧ w.holder = some i ∧
      ∀ n, shown.fetched = some n → w.invalidated room ≤ n
  | .showed since shown => ∀ n, shown.fetched = some n → since ≤ n
  | .proxied lobbyRoomId change => ∀ room n, change = some (room, n) → room.text = lobbyRoomId ∧ n ≤ w.made room
  | .invalidated change => ∀ room, changeOf room change ≤ w.invalidated room
  | .idle | .refused | .proxying _ | .answered => True

/-- What is stored under the canonical text of a room is not older than a change after which the cache was
invalidated, and nothing is answered before that. -/
structure Dashboard.Sound (w : Dashboard S) : Prop where
  answered (room : Uuid) : w.answered room ≤ w.invalidated room
  made (room : Uuid) : w.invalidated room ≤ w.made room
  cached (room : Uuid) (shown : SlotSettings S) (n : ℕ) (found : w.trackerInfoCache room.text = some shown)
    (fetched : shown.fetched = some n) : w.invalidated room ≤ n

/-- What the steps of others leave to a thread: the counts only grow, and while it holds the lock the cache is not
invalidated. -/
structure Leaves (i : ℕ) (w w' : Dashboard S) : Prop where
  answered (room : Uuid) : w.answered room ≤ w'.answered room
  made (room : Uuid) : w.made room ≤ w'.made room
  invalidated (room : Uuid) : w.invalidated room ≤ w'.invalidated room
  held (own : w.holder = some i) : w'.holder = some i ∧ w'.invalidated = w.invalidated

/-- A change that is made grows the count of its room. -/
lemma made_le_change (room room' : Uuid) (change : S → S) : w.made room' ≤ (w.change room change).made room' := by
  change _ ≤ Function.update w.made room (w.made room + 1) room'
  rcases eq_or_ne room' room with rfl | other
  · rw [Function.update_self]
    exact Nat.le_succ _
  · rw [Function.update_of_ne other]

/-- A step leaves the threads that don't take it what they need. -/
lemma DashboardStep.leaves (step : DashboardStep default i w pc x w' pc') (knows : Knows i w pc) {k : ℕ} (ne : k ≠ i) :
    Leaves k w w' := by
  cases step with
  | ask | hit | fetch | proxy | fails => exact ⟨fun _ => le_rfl, fun _ => le_rfl, fun _ => le_rfl, fun own => ⟨own, rfl⟩⟩
  | miss free =>
    refine ⟨fun _ => le_rfl, fun _ => le_rfl, fun _ => le_rfl, fun own => ?_⟩
    cases free.symm.trans own
  | refuse =>
    refine ⟨fun _ => le_rfl, fun _ => le_rfl, fun _ => le_rfl, fun own => ?_⟩
    cases knows.2.2.symm.trans own
    exact absurd rfl ne
  | store =>
    refine ⟨fun _ => le_rfl, fun _ => le_rfl, fun _ => le_rfl, fun own => ?_⟩
    cases knows.2.2.1.symm.trans own
    exact absurd rfl ne
  | change known => exact ⟨fun _ => le_rfl, fun _ => made_le_change _ _ _, fun _ => le_rfl, fun own => ⟨own, rfl⟩⟩
  | invalidate free =>
    refine ⟨fun _ => le_rfl, fun _ => le_rfl, fun _ => le_max_left _ _, fun own => ?_⟩
    cases free.symm.trans own
  | answer => exact ⟨fun _ => le_max_left _ _, fun _ => le_rfl, fun _ => le_rfl, fun own => ⟨own, rfl⟩⟩

/-- A change of a room that has another text is no change of this room. -/
lemma changeOf_eq_zero {lobbyRoomId : String} {change : Option (Uuid × ℕ)} {room : Uuid}
    (known : ∀ room n, change = some (room, n) → room.text = lobbyRoomId ∧ n ≤ w.made room)
    (other : room.text ≠ lobbyRoomId) : changeOf room change = 0 := by
  cases change with
  | none => rfl
  | some change =>
    obtain ⟨changed, n⟩ := change
    rw [changeOf, if_neg]
    rintro rfl
    exact other (known changed n rfl).1

lemma changeOf_le_made {lobbyRoomId : String} {change : Option (Uuid × ℕ)}
    (known : ∀ room n, change = some (room, n) → room.text = lobbyRoomId ∧ n ≤ w.made room) (room : Uuid) :
    changeOf room change ≤ w.made room := by
  cases change with
  | none => exact Nat.zero_le _
  | some change =>
    obtain ⟨changed, n⟩ := change
    rw [changeOf]
    split
    case isTrue same => exact same ▸ (known changed n rfl).2
    case isFalse => exact Nat.zero_le _

/-- What is found in the cache was not fetched before a change that had been answered. -/
lemma Dashboard.Sound.fetched (sound : w.Sound) {lobbyRoomId : String} {room : Uuid} {since : ℕ}
    {shown : SlotSettings S} (parsed : Uuid.parseStr lobbyRoomId = some room) (le : since ≤ w.answered room)
    (fresh : NoStaleForm w (.asking lobbyRoomId room since) (.lock false))
    (found : w.trackerInfoCache lobbyRoomId = some shown) : ∀ n, shown.fetched = some n → since ≤ n := by
  intro n fetched
  have invalidated := le.trans (sound.answered room)
  rcases eq_or_ne lobbyRoomId room.text with rfl | other
  · exact invalidated.trans (sound.cached room shown n found fetched)
  · exact (invalidated.trans (sound.made room)).trans (fresh _ _ _ _ n rfl rfl found other fetched)

/-- What a request stores under the text that it was asked by. -/
lemma Dashboard.Sound.store (sound : w.Sound) {lobbyRoomId : String} {room : Uuid} {shown : SlotSettings S}
    (parsed : Uuid.parseStr lobbyRoomId = some room) (fetched : ∀ n, shown.fetched = some n → w.invalidated room ≤ n) :
    (w.store lobbyRoomId shown).Sound where
  answered := sound.answered
  made := sound.made
  cached room' shown' n found is := by
    have cache : (w.store lobbyRoomId shown).trackerInfoCache =
      Function.update w.trackerInfoCache lobbyRoomId (some shown) := rfl
    rw [cache] at found
    rcases eq_or_ne room'.text lobbyRoomId with rfl | other
    · -- the canonical text of a room is read as this room
      rw [Function.update_self] at found
      cases found
      cases (Uuid.parseStr_text room').symm.trans parsed
      exact fetched n is
    · rw [Function.update_of_ne other] at found
      exact sound.cached room' shown' n found is

lemma Dashboard.Sound.invalidate (sound : w.Sound) {lobbyRoomId : String} {change : Option (Uuid × ℕ)}
    (known : ∀ room n, change = some (room, n) → room.text = lobbyRoomId ∧ n ≤ w.made room) :
    (w.invalidate lobbyRoomId change).Sound where
  answered room := (sound.answered room).trans (le_max_left _ _)
  made room := max_le (sound.made room) (changeOf_le_made known room)
  cached room shown n found fetched := by
    have cache : (w.invalidate lobbyRoomId change).trackerInfoCache =
      Function.update w.trackerInfoCache lobbyRoomId none := rfl
    rw [cache] at found
    rcases eq_or_ne room.text lobbyRoomId with same | other
    · rw [same, Function.update_self] at found
      cases found
    · rw [Function.update_of_ne other] at found
      refine max_le (sound.cached room shown n found fetched) ?_
      rw [changeOf_eq_zero known other]
      exact Nat.zero_le _

/-- A step that meets the condition keeps the dashboard sound, and its thread knows what it should. -/
lemma DashboardStep.keeps (step : DashboardStep default i w pc x w' pc') (sound : w.Sound) (knows : Knows i w pc)
    (fresh : NoStaleForm w pc x) : w'.Sound ∧ Knows i w' pc' := by
  cases step with
  | ask parsed => exact ⟨sound, parsed, le_rfl⟩
  | hit found => exact ⟨sound, sound.fetched knows.1 knows.2 fresh found⟩
  | miss free => exact ⟨⟨sound.answered, sound.made, sound.cached⟩, knows.1, knows.2, rfl⟩
  | refuse => exact ⟨⟨sound.answered, sound.made, sound.cached⟩, trivial⟩
  | @fetch lobbyRoomId room since failed =>
    -- APX answers with all changes that are made, also those that are not answered yet
    refine ⟨sound, knows.1, knows.2.1, knows.2.2, fun n fetched => ?_⟩
    rw [Dashboard.fetchRoomState] at fetched
    split at fetched
    case isTrue => cases fetched
    case isFalse =>
      cases fetched
      exact sound.made room
  | @store lobbyRoomId room since shown =>
    obtain ⟨parsed, le, own, fetched⟩ := knows
    exact ⟨sound.store parsed fetched, fun n is => (le.trans (sound.answered room)).trans (fetched n is)⟩
  | proxy => exact ⟨sound, trivial⟩
  | @change lobbyRoomId room change known =>
    refine ⟨⟨sound.answered, fun room' => (sound.made room').trans (made_le_change _ _ _), sound.cached⟩, ?_⟩
    intro room' n is
    cases is
    exact ⟨known, le_of_eq (Function.update_self room (w.made room + 1) w.made).symm⟩
  | fails =>
    refine ⟨sound, fun room n is => ?_⟩
    cases is
  | invalidate free => exact ⟨sound.invalidate knows, fun room => le_max_right _ _⟩
  | answer =>
    exact ⟨⟨fun room => max_le (sound.answered room) (knows room), sound.made, sound.cached⟩, trivial⟩

end

/-- A room, and its id without hyphens. -/
def someRoom : Uuid := ⟨0x936da01f9abd4d9d80c702af85c822a8⟩

/-- A request for the settings of the room that takes the lock right away, and one that goes on to fetch them. -/
def asks (i : ℕ) (lobbyRoomId : String) : List (ℕ × DashboardInput Bool) :=
  [(i, .getTrackerInfo lobbyRoomId), (i, .lock false)]

/-- A change of the room that is answered. -/
def changes (i : ℕ) : List (ℕ × DashboardInput Bool) :=
  [(i, .proxy someRoom.text), (i, .apply (fun _ => true) true), (i, .invalidate), (i, .answer)]

end ArchipelagoXL.Tools
