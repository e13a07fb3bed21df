import ArchipelagoXL.Lib.Interleave
import Mathlib.Data.Int.Notation

/-!
# The room killer

A process of `apx` takes down rooms in which nothing has happened for a while (`startRoomKiller` in
`apx/api.go`). It goes through a list of the running rooms; for one that looks idle it asks the server for
checked locations, looks again, disables the room in the store and removes it from the registry. Meanwhile
rooms are stopped, started, uploaded and deleted, and pollers note activity; every access to the
registry, to a room's last activity or to its row is a step.

The killer decides about the room it has listed and acts on its lobby room id. If another room runs or
is being started under that id by then, that one is hit. It hits only idle rooms as long as no other room
is there under the id (`killer_hits_only_idle`).
-/

namespace ArchipelagoXL.Apx

open Interleave

/-- What the requests and the killer share: the registry, the lobby room ids and last activities of all
rooms that were made, by address, and whether the row of a room is disabled. -/
structure RoomTable where
  rooms : String → Option ℕ
  made : ℕ
  lobbyRoomId : ℕ → String
  lastActivity : ℕ → ℤ
  disabled : String → Option Bool

/-- What was so at the second check of the killer: the rooms that were made, and their activity. -/
structure SecondCheck where
  made : ℕ
  lastActivity : ℕ → ℤ

/-- Where a thread is: between calls, at a step of the killer, of a stop, a start, a new room or a delete
request, or back with a status. -/
inductive RoomPc where
  | idle
  | list (deadline : ℤ)
  | firstCheck (deadline : ℤ) (room : ℕ) (todo : List ℕ)
  | refresh (deadline : ℤ) (room : ℕ) (todo : List ℕ)
  | secondCheck (deadline : ℤ) (room : ℕ) (todo : List ℕ)
  | disable (deadline : ℤ) (room : ℕ) (todo : List ℕ) (check : SecondCheck)
  | remove (deadline : ℤ) (room : ℕ) (todo : List ℕ) (check : SecondCheck)
  | stopGet (roomId : String)
  | stopDisable (roomId : String)
  | stopRemove (roomId : String)
  | startGet (roomId : String)
  | startFind (roomId : String)
  | startEnable (roomId : String)
  | startGetAgain (roomId : String)
  | startPoll (roomId : String)
  | newGet (roomId : String)
  | newMake (roomId : String)
  | newAdd (roomId : String) (room : ℕ)
  | newSave (roomId : String)
  | deleteFind (roomId : String)
  | deleteRow (roomId : String)
  | deleteRemove (roomId : String)
  | answered (status : ℕ)

/-- What the environment decides: the calls, the order of a list, the time, and failures of the store or the
server. -/
inductive RoomInput where
  | tick (now : ℤ)
  | stop (roomId : String)
  | start (roomId : String)
  | upload (roomId : String)
  | delete (roomId : String)
  | poll (room : ℕ) (now : ℤ)
  | order (rooms : List ℕ)
  | clock (now : ℤ)
  | go
  | fail

/-- The addresses of the running rooms. -/
def RoomTable.running (w : RoomTable) : List ℕ :=
  (List.range w.made).filter fun room => decide (w.rooms (w.lobbyRoomId room) = some room)

/-- The steps of the killer. -/
def RoomPc.ofKiller : RoomPc → Bool
  | .list _ | .firstCheck _ _ _ | .refresh _ _ _ | .secondCheck _ _ _ | .disable _ _ _ _
  | .remove _ _ _ _ => true
  | _ => false

/-- The start of a room that is made and not yet registered. -/
def RoomPc.starting : RoomPc → Bool
  | .newAdd _ _ => true
  | _ => false

/-- The next room of the killer's list. -/
def nextRoom (deadline : ℤ) : List ℕ → RoomPc
  | [] => .idle
  | room :: todo => .firstCheck deadline room todo

/-- The registry after `Remove`. -/
def RoomTable.remove (w : RoomTable) (roomId : String) : RoomTable :=
  { w with rooms := Function.update w.rooms roomId none }

/-- An update of a row, if there is one. -/
def RoomTable.setDisabled (w : RoomTable) (roomId : String) (disabled : Bool) : RoomTable :=
  { w with disabled := Function.update w.disabled roomId ((w.disabled roomId).map fun _ => disabled) }

/-- A room is active, as a refresh notes it. -/
def RoomTable.touch (w : RoomTable) (room : ℕ) (now : ℤ) : RoomTable :=
  { w with lastActivity := Function.update w.lastActivity room now }

/-- A new room, which is active from the start. -/
def RoomTable.make (w : RoomTable) (roomId : String) (now : ℤ) : RoomTable :=
  { w with
    made := w.made + 1
    lobbyRoomId := Function.update w.lobbyRoomId w.made roomId
    lastActivity := Function.update w.lastActivity w.made now }

/-- The row is written; of one that is there `disabled` is kept. -/
def RoomTable.save (w : RoomTable) (roomId : String) : RoomTable :=
  { w with disabled := Function.update w.disabled roomId (some ((w.disabled roomId).getD false)) }

/-- One step of a thread; `timeout` is the argument of the killer. -/
def roomMachine (timeout : ℤ) : Machine RoomTable RoomPc RoomInput := fun _ w pc x =>
  match pc, x with
  -- Go `startRoomKiller`
  | .idle, .tick now => some (w, .list (now - timeout))
  | .list deadline, .order rooms =>
    if rooms.Perm w.running then some (w, nextRoom deadline rooms) else none
  | .firstCheck deadline room todo, .go =>
    if w.lastActivity room ≥ deadline then some (w, nextRoom deadline todo)
    else some (w, .refresh deadline room todo)
  | .refresh deadline room todo, .clock now =>
    some (w.touch room now, .secondCheck deadline room todo)
  -- no new locations, or the refresh has failed
  | .refresh deadline room todo, .go => some (w, .secondCheck deadline room todo)
  | .secondCheck deadline room todo, .go =>
    if w.lastActivity room ≥ deadline then some (w, nextRoom deadline todo)
    else some (w, .disable deadline room todo ⟨w.made, w.lastActivity⟩)
  | .disable deadline room todo check, .go =>
    some (w.setDisabled (w.lobbyRoomId room) true, .remove deadline room todo check)
  | .disable deadline room todo check, .fail => some (w, .remove deadline room todo check)
  | .remove deadline room todo _, .go => some (w.remove (w.lobbyRoomId room), nextRoom deadline todo)
  -- Go `handleRoomStop`
  | .idle, .stop roomId => some (w, .stopGet roomId)
  | .stopGet roomId, .go =>
    match w.rooms roomId with
    | none => some (w, .answered 404)
    | some _ => some (w, .stopDisable roomId)
  | .stopDisable roomId, .go => some (w.setDisabled roomId true, .stopRemove roomId)
  | .stopDisable _, .fail => some (w, .answered 500)
  | .stopRemove roomId, .go => some (w.remove roomId, .answered 200)
  -- Go `handleRoomStart`
  | .idle, .start roomId => some (w, .startGet roomId)
  | .startGet roomId, .go =>
    match w.rooms roomId with
    | some _ => some (w, .answered 409)
    | none => some (w, .startFind roomId)
  | .startFind roomId, .go =>
    match w.disabled roomId with
    | none => some (w, .answered 404)
    | some true => some (w, .startEnable roomId)
    | some false => some (w, .startGetAgain roomId)
  | .startFind _, .fail => some (w, .answered 500)
  | .startEnable roomId, .go => some (w.setDisabled roomId false, .startPoll roomId)
  | .startEnable _, .fail => some (w, .answered 500)
  | .startGetAgain roomId, .go =>
    match w.rooms roomId with
    | some _ => some (w, .answered 200)
    | none => some (w, .startPoll roomId)
  | .startPoll roomId, .go => some (w, .newGet roomId)
  | .startPoll _, .fail => some (w, .answered 504)
  -- Go `handleUploadRoom` and `startNewHostedRoom`
  | .idle, .upload roomId => some (w, .newGet roomId)
  | .newGet roomId, .go =>
    match w.rooms roomId with
    | some _ => some (w, .answered 500)
    | none => some (w, .newMake roomId)
  | .newMake roomId, .clock now => some (w.make roomId now, .newAdd roomId w.made)
  | .newMake _, .fail => some (w, .answered 500)
  | .newAdd roomId room, .go =>
    match w.rooms roomId with
    | some _ => some (w, .answered 500)
    | none => some ({ w with rooms := Function.update w.rooms roomId (some room) }, .newSave roomId)
  -- no ids are left for its handlers
  | .newAdd _ _, .fail => some (w, .answered 500)
  | .newSave roomId, .go => some (w.save roomId, .answered 201)
  | .newSave _, .fail => some (w, .answered 201)
  -- Go `handleRoomDelete`
  | .idle, .delete roomId => some (w, .deleteFind roomId)
  | .deleteFind roomId, .go =>
    match w.disabled roomId with
    | none => some (w, .answered 404)
    | some _ => some (w, .deleteRow roomId)
  | .deleteFind _, .fail => some (w, .answered 500)
  | .deleteRow roomId, .go =>
    some ({ w with disabled := Function.update w.disabled roomId none }, .deleteRemove roomId)
  | .deleteRow _, .fail => some (w, .answered 500)
  | .deleteRemove roomId, .go => some (w.remove roomId, .answered 200)
  -- Go `startCheckedLocationPoller`
  | .idle, .poll room now => if room < w.made then some (w.touch room now, .idle) else none
  | _, _ => none

/-- No room was made yet; the store may have rows. -/
def roomInit (disabled : String → Option Bool) : Conf RoomTable RoomPc :=
  ⟨⟨fun _ => none, 0, fun _ => "", fun _ => 0, disabled⟩, fun _ => .idle⟩

/-! ## What the killer hits -/

/-- A room runs or is about to. -/
def Live (s : Conf RoomTable RoomPc) (room : ℕ) : Prop :=
  s.shared.rooms (s.shared.lobbyRoomId room) = some room ∨
    ∃ i roomId, s.pc i = .newAdd roomId room

/-- The rooms that a step of the killer takes out of the registry, or whose row it disables. -/
def Hit (s : Conf RoomTable RoomPc) (i : ℕ) (room : ℕ) : Prop :=
  match s.pc i with
  | .disable _ target _ _ =>
    Live s room ∧ s.shared.lobbyRoomId room = s.shared.lobbyRoomId target
  | .remove _ target _ _ => s.shared.rooms (s.shared.lobbyRoomId target) = some room
  | _ => False

/-- A room was there at the second check of the killer, and its last activity older than the timeout. -/
def WasIdle (s : Conf RoomTable RoomPc) (i : ℕ) (room : ℕ) : Prop :=
  match s.pc i with
  | .disable deadline _ _ check => room < check.made ∧ check.lastActivity room < deadline
  | .remove deadline _ _ check => room < check.made ∧ check.lastActivity room < deadline
  | _ => False

/-- When the killer disables or removes, no other room than the one it has checked is there under the
id. -/
def NoOther (s : Conf RoomTable RoomPc) (i : ℕ) : Prop :=
  match s.pc i with
  | .disable _ target _ _ =>
    ∀ room, Live s room → s.shared.lobbyRoomId room = s.shared.lobbyRoomId target → room = target
  | .remove _ target _ _ =>
    ∀ room, Live s room → s.shared.lobbyRoomId room = s.shared.lobbyRoomId target → room = target
  | _ => True

/-! ## One step -/

/-- The rooms of the registry are rooms that were made, each under its own lobby room id. -/
def RoomTable.Tidy (w : RoomTable) : Prop :=
  ∀ roomId room, w.rooms roomId = some room → room < w.made ∧ w.lobbyRoomId room = roomId

/-- What a thread holds was made; what the killer is about to take down was idle at its second check. -/
def RoomPc.Ok (w : RoomTable) : RoomPc → Prop
  | .firstCheck _ room todo => ∀ r ∈ room :: todo, r < w.made
  | .refresh _ room todo => ∀ r ∈ room :: todo, r < w.made
  | .secondCheck _ room todo => ∀ r ∈ room :: todo, r < w.made
  | .disable deadline room todo check =>
    (∀ r ∈ todo, r < w.made) ∧ room < check.made ∧ check.lastActivity room < deadline
  | .remove deadline room todo check =>
    (∀ r ∈ todo, r < w.made) ∧ room < check.made ∧ check.lastActivity room < deadline
  | .newAdd roomId room => room < w.made ∧ w.lobbyRoomId room = roomId
  | _ => True

/-- Rooms are only made, never unmade, and keep their lobby room ids. -/
structure RoomTable.Grows (w w' : RoomTable) : Prop where
  made : w.made ≤ w'.made
  lobbyRoomId : ∀ room < w.made, w'.lobbyRoomId room = w.lobbyRoomId room

lemma RoomTable.Grows.refl (w : RoomTable) : w.Grows w := ⟨Nat.le_refl _, fun _ _ => rfl⟩

lemma RoomPc.Ok.mono {w w' : RoomTable} {pc : RoomPc} (grows : w.Grows w') (ok : pc.Ok w) : pc.Ok w' := by
  have made : ∀ {rooms : List ℕ}, (∀ r ∈ rooms, r < w.made) → ∀ r ∈ rooms, r < w'.made :=
    fun h r hr => Nat.lt_of_lt_of_le (h r hr) grows.made
  cases pc with
  | firstCheck deadline room todo => exact made ok
  | refresh deadline room todo => exact made ok
  | secondCheck deadline room todo => exact made ok
  | disable deadline room todo check => exact ⟨made ok.1, ok.2⟩
  | remove deadline room todo check => exact ⟨made ok.1, ok.2⟩
  | newAdd roomId room =>
    obtain ⟨lt, lobby⟩ := ok
    exact ⟨Nat.lt_of_lt_of_le lt grows.made, (grows.lobbyRoomId room lt).trans lobby⟩
  | _ => trivial

lemma ok_nextRoom {w : RoomTable} {deadline : ℤ} {todo : List ℕ} (made : ∀ r ∈ todo, r < w.made) :
    (nextRoom deadline todo).Ok w := by
  cases todo with
  | nil => trivial
  | cons room todo => exact made

/-- The killer lists rooms that were made. -/
lemma RoomTable.running_made {w : RoomTable} {rooms : List ℕ} (perm : rooms.Perm w.running) :
    ∀ r ∈ rooms, r < w.made := by
  intro r hr
  have mem := perm.mem_iff.mp hr
  rw [RoomTable.running, List.mem_filter] at mem
  exact List.mem_range.mp mem.1

lemma RoomTable.Tidy.remove {w : RoomTable} (tidy : w.Tidy) (roomId : String) : (w.remove roomId).Tidy := by
  intro other room h
  by_cases e : other = roomId
  · subst e
    simp [RoomTable.remove] at h
  · simp only [RoomTable.remove, Function.update_of_ne e] at h
    exact tidy other room h

lemma RoomTable.grows_make (w : RoomTable) (roomId : String) (now : ℤ) : w.Grows (w.make roomId now) :=
  ⟨Nat.le_succ _, fun _ lt => Function.update_of_ne (Nat.ne_of_lt lt) _ _⟩

lemma RoomTable.Tidy.make {w : RoomTable} (tidy : w.Tidy) (roomId : String) (now : ℤ) :
    (w.make roomId now).Tidy := by
  intro other room h
  obtain ⟨lt, lobby⟩ := tidy other room h
  have grows := w.grows_make roomId now
  exact ⟨Nat.lt_of_lt_of_le lt grows.made, (grows.lobbyRoomId room lt).trans lobby⟩

lemma RoomTable.Tidy.add {w : RoomTable} (tidy : w.Tidy) {roomId : String} {room : ℕ}
    (ok : (RoomPc.newAdd roomId room).Ok w) :
    RoomTable.Tidy { w with rooms := Function.update w.rooms roomId (some room) } := by
  intro other room' h
  by_cases e : other = roomId
  · subst e
    simp only [Function.update_self, Option.some.injEq] at h
    subst h
    exact ok
  · simp only [Function.update_of_ne e] at h
    exact tidy other room' h

/-- What a step keeps. -/
structure KeptBy (w w' : RoomTable) (pc' : RoomPc) : Prop where
  grows : w.Grows w'
  tidy : w'.Tidy
  ok : pc'.Ok w'

/-- Steps that leave the rooms alone. -/
lemma RoomTable.Tidy.untouched {w w' : RoomTable} {pc' : RoomPc} (tidy : w.Tidy)
    (rooms : w'.rooms = w.rooms) (made : w'.made = w.made) (lobby : w'.lobbyRoomId = w.lobbyRoomId)
    (ok : pc'.Ok w') : KeptBy w w' pc' := by
  refine ⟨⟨Nat.le_of_eq made.symm, fun room _ => congrFun lobby room⟩, ?_, ok⟩
  intro roomId room h
  rw [rooms] at h
  rw [made, lobby]
  exact tidy roomId room h

/-- The steps of the killer. -/
lemma killer_keeps {timeout : ℤ} {i : ℕ} {w w' : RoomTable} {pc pc' : RoomPc} {x : RoomInput}
    (h : roomMachine timeout i w pc x = some (w', pc')) (tidy : w.Tidy) (ok : pc.Ok w)
    (killer : pc.ofKiller = true) : KeptBy w w' pc' := by
  cases pc with
  | list deadline =>
    cases x with
    | order rooms =>
      simp only [roomMachine] at h
      split at h
      · rename_i perm
        cases h
        exact tidy.untouched rfl rfl rfl (ok_nextRoom (RoomTable.running_made perm))
      · cases h
    | _ => cases h
  | firstCheck deadline room todo =>
    have later : ∀ r ∈ todo, r < w.made := fun r hr => ok r (List.mem_cons_of_mem _ hr)
    cases x with
    | go =>
      simp only [roomMachine] at h
      split at h
      · cases h
        exact tidy.untouched rfl rfl rfl (ok_nextRoom later)
      · cases h
        exact tidy.untouched rfl rfl rfl ok
    | _ => cases h
  | refresh deadline room todo =>
    cases x with
    | clock now =>
      cases h
      exact tidy.untouched rfl rfl rfl ok
    | go =>
      cases h
      exact tidy.untouched rfl rfl rfl ok
    | _ => cases h
  | secondCheck deadline room todo =>
    have later : ∀ r ∈ todo, r < w.made := fun r hr => ok r (List.mem_cons_of_mem _ hr)
    cases x with
    | go =>
      simp only [roomMachine] at h
      split at h
      · cases h
        exact tidy.untouched rfl rfl rfl (ok_nextRoom later)
      · rename_i old
        cases h
        have idle : w.lastActivity room < deadline := Int.not_le.mp old
        exact tidy.untouched rfl rfl rfl ⟨later, ok room List.mem_cons_self, idle⟩
    | _ => cases h
  | disable deadline room todo check =>
    cases x with
    | go =>
      cases h
      exact tidy.untouched rfl rfl rfl ok
    | fail =>
      cases h
      exact tidy.untouched rfl rfl rfl ok
    | _ => cases h
  | remove deadline room todo check =>
    cases x with
    | go =>
      cases h
      exact ⟨⟨Nat.le_refl _, fun _ _ => rfl⟩, tidy.remove _, ok_nextRoom ok.1⟩
    | _ => cases h
  | _ => cases killer

/-- The steps of the requests and the pollers. -/
lemma request_keeps {timeout : ℤ} {i : ℕ} {w w' : RoomTable} {pc pc' : RoomPc} {x : RoomInput}
    (h : roomMachine timeout i w pc x = some (w', pc')) (tidy : w.Tidy) (ok : pc.Ok w)
    (request : pc.ofKiller = false) : KeptBy w w' pc' := by
  have stays : ∀ {pc' : RoomPc}, pc'.Ok w → KeptBy w w pc' := fun ok => tidy.untouched rfl rfl rfl ok
  cases pc with
  | idle =>
    cases x with
    | tick now =>
      cases h
      exact stays trivial
    | stop roomId =>
      cases h
      exact stays trivial
    | start roomId =>
      cases h
      exact stays trivial
    | upload roomId =>
      cases h
      exact stays trivial
    | delete roomId =>
      cases h
      exact stays trivial
    | poll room now =>
      simp only [roomMachine] at h
      split at h
      · cases h
        exact tidy.untouched rfl rfl rfl trivial
      · cases h
    | _ => cases h
  | stopGet roomId =>
    cases x with
    | go =>
      simp only [roomMachine] at h
      split at h <;> cases h <;> exact stays trivial
    | _ => cases h
  | stopDisable roomId =>
    cases x with
    | go =>
      cases h
      exact tidy.untouched rfl rfl rfl trivial
    | fail =>
      cases h
      exact stays trivial
    | _ => cases h
  | stopRemove roomId =>
    cases x with
    | go =>
      cases h
      exact ⟨⟨Nat.le_refl _, fun _ _ => rfl⟩, tidy.remove _, trivial⟩
    | _ => cases h
  | startGet roomId =>
    cases x with
    | go =>
      simp only [roomMachine] at h
      split at h <;> cases h <;> exact stays trivial
    | _ => cases h
  | startFind roomId =>
    cases x with
    | go =>
      simp only [roomMachine] at h
      split at h <;> cases h <;> exact stays trivial
    | fail =>
      cases h
      exact stays trivial
    | _ => cases h
  | startEnable roomId =>
    cases x with
    | go =>
      cases h
      exact tidy.untouched rfl rfl rfl trivial
    | fail =>
      cases h
      exact stays trivial
    | _ => cases h
  | startGetAgain roomId =>
    cases x with
    | go =>
      simp only [roomMachine] at h
      split at h <;> cases h <;> exact stays trivial
    | _ => cases h
  | startPoll roomId =>
    cases x with
    | go =>
      cases h
      exact stays trivial
    | fail =>
      cases h
      exact stays trivial
    | _ => cases h
  | newGet roomId =>
    cases x with
    | go =>
      simp only [roomMachine] at h
      split at h <;> cases h <;> exact stays trivial
    | _ => cases h
  | newMake roomId =>
    cases x with
    | clock now =>
      cases h
      have made : (RoomPc.newAdd roomId w.made).Ok (w.make roomId now) :=
        ⟨Nat.lt_succ_self _, Function.update_self _ _ _⟩
      exact ⟨w.grows_make roomId now, tidy.make roomId now, made⟩
    | fail =>
      cases h
      exact stays trivial
    | _ => cases h
  | newAdd roomId room =>
    cases x with
    | go =>
      simp only [roomMachine] at h
      split at h
      · cases h
        exact stays trivial
      · cases h
        exact ⟨⟨Nat.le_refl _, fun _ _ => rfl⟩, tidy.add ok, trivial⟩
    | fail =>
      cases h
      exact stays trivial
    | _ => cases h
  | newSave roomId =>
    cases x with
    | go =>
      cases h
      exact tidy.untouched rfl rfl rfl trivial
    | fail =>
      cases h
      exact stays trivial
    | _ => cases h
  | deleteFind roomId =>
    cases x with
    | go =>
      simp only [roomMachine] at h
      split at h <;> cases h <;> exact stays trivial
    | fail =>
      cases h
      exact stays trivial
    | _ => cases h
  | deleteRow roomId =>
    cases x with
    | go =>
      cases h
      exact tidy.untouched rfl rfl rfl trivial
    | fail =>
      cases h
      exact stays trivial
    | _ => cases h
  | deleteRemove roomId =>
    cases x with
    | go =>
      cases h
      exact ⟨⟨Nat.le_refl _, fun _ _ => rfl⟩, tidy.remove _, trivial⟩
    | _ => cases h
  | answered status => cases h
  | _ => cases request

lemma roomMachine_keeps {timeout : ℤ} {i : ℕ} {w w' : RoomTable} {pc pc' : RoomPc} {x : RoomInput}
    (h : roomMachine timeout i w pc x = some (w', pc')) (tidy : w.Tidy) (ok : pc.Ok w) :
    KeptBy w w' pc' := by
  cases killer : pc.ofKiller with
  | true => exact killer_keeps h tidy ok killer
  | false => exact request_keeps h tidy ok killer

/-! ## All runs -/

/-- The invariant of all runs. -/
structure WellKept (s : Conf RoomTable RoomPc) : Prop where
  tidy : s.shared.Tidy
  ok : ∀ i, (s.pc i).Ok s.shared

lemma wellKept_of_run {timeout : ℤ} {disabled : String → Option Bool}
    {C : Cond RoomTable RoomPc RoomInput} {tr s}
    (run : Run (roomMachine timeout) C (roomInit disabled) tr s) : WellKept s := by
  have empty : (roomInit disabled).shared.Tidy := by
    intro roomId room h
    cases h
  have ⟨tidy, ok⟩ := run.everyThread (P := fun w pc => pc.Ok w) empty (fun _ => trivial)
    fun tidy ok st => by
      have step := roomMachine_keeps st tidy ok
      exact ⟨step.tidy, step.ok, fun _ other => other.mono step.grows⟩
  exact ⟨tidy, ok⟩

/-- The killer takes down only rooms that were idle when it looked last, as long as no other room is there under
the id. -/
theorem killer_hits_only_idle (timeout : ℤ) (disabled : String → Option Bool) (tr s)
    (run : Run (roomMachine timeout) Cond.any (roomInit disabled) tr s) (i : ℕ) (alone : NoOther s i)
    (room : ℕ) (hit : Hit s i room) : WasIdle s i room := by
  have kept := wellKept_of_run run
  have ok := kept.ok i
  unfold Hit at hit
  unfold NoOther at alone
  unfold WasIdle
  cases e : s.pc i with
  | disable deadline target todo check =>
    rw [e] at hit alone ok
    obtain rfl := alone room hit.1 hit.2
    exact ok.2
  | remove deadline target todo check =>
    rw [e] at hit alone ok
    obtain ⟨-, lobby⟩ := kept.tidy _ room hit
    have live : Live s room := .inl (lobby ▸ hit)
    obtain rfl := alone room live lobby
    exact ok.2
  | _ =>
    rw [e] at hit
    exact hit.elim

/-- A room is uploaded, and nothing happens in it. The killer comes by up to the point where it removes
the room. -/
def killed : List (ℕ × RoomInput) :=
  [(0, .upload "a"), (0, .go), (0, .clock 5), (0, .go), (0, .go), (1, .tick 100), (1, .order [0]), (1, .go),
    (1, .go), (1, .go)]

/-- The owner stops the room and starts it again. -/
def stoppedAndStarted : List (ℕ × RoomInput) :=
  [(2, .stop "a"), (2, .go), (2, .go), (2, .go), (3, .start "a"), (3, .go), (3, .go), (3, .go), (3, .go),
    (3, .go), (3, .clock 100), (3, .go), (3, .go)]

theorem killed_idle :
    WasIdle (finalOf (roomMachine 10) (roomInit fun _ => none) killed) 1 0 := by
  have ok : (exec (roomMachine 10) (roomInit fun _ => none) [] killed).isSome = true := by decide
  have run := exec_run_any ok
  have live : Live (finalOf (roomMachine 10) (roomInit fun _ => none) killed) 0 := .inl (by decide)
  have starting : ∀ k, ((finalOf (roomMachine 10) (roomInit fun _ => none) killed).pc k).starting = false := by
    refine finalOf_forall (P := fun _ (pc : RoomPc) => pc.starting = false) (b := 2) (fun _ => rfl) ?_ ?_
    · decide
    · decide
  refine killer_hits_only_idle 10 (fun _ => none) _ _ run 1 ?_ 0 ⟨live, rfl⟩
  intro room other same
  rcases other with registered | ⟨k, roomId, at_⟩
  · rw [same] at registered
    exact (Option.some.inj registered).symm
  · have := starting k
    rw [at_] at this
    cases this

/-- The killer has looked twice when the owner acts; it takes down the new room. -/
theorem restarted_killed :
    ¬∀ timeout disabled tr s, Run (roomMachine timeout) Cond.any (roomInit disabled) tr s →
      ∀ i room, Hit s i room → WasIdle s i room := by
  intro h
  have ok : (exec (roomMachine 10) (roomInit fun _ => none) [] (killed ++ stoppedAndStarted)).isSome =
      true := by decide
  have hit : Hit (finalOf (roomMachine 10) (roomInit fun _ => none) (killed ++ stoppedAndStarted)) 1 1 :=
    ⟨.inl (by decide), by decide⟩
  have idle := h 10 (fun _ => none) _ _ (exec_run_any ok) 1 1 hit
  exact absurd idle.1 (by decide)

end ArchipelagoXL.Apx
