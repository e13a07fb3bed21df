import ArchipelagoXL.Apx.Registry
import ArchipelagoXL.Lib.Interleave

/-!
# Slot passwords

A room with per-slot passwords lets a client in with the password of its slot (`apx/auth.go`,
`handleConnect`), and a refresh takes over the lobby's passwords and kicks the slots whose password
changed (`apx/lobby.go`, `loadPasswordsIntoStore`). The machine runs any number of both at once, cut at each
access of the password store and of the connection registry, with the dialogue with the Archipelago server
in between.

Three things let a client stay with a password that is not, or no longer, the one of its slot: the
password changes between the check and the registration; a password is taken away, which kicks
nobody; two refreshes overlap and one puts back what it had read. Without these no client stays in
(`passwords_lock_out`).
-/

namespace ArchipelagoXL.Apx

open Interleave

/-- What a client sends to connect (Go `ConnectMessage`). -/
structure ConnectMessage where
  name : String
  password : Option String
  tags : List String
deriving DecidableEq

/-- A slot as the lobby tells it (Go `SlotPasswordInfo`). -/
structure SlotPasswordInfo where
  slotNumber : ℤ
  playerName : String
  password : Option String
deriving DecidableEq

/-- What of a room does not change: `auth` has the team and slot of each player. -/
structure RoomAuth where
  perSlotPasswords : Bool
  auth : String → Option (ℤ × ℤ)

/-- A message of the Archipelago server; `Connected` may come without the slot's own info. -/
inductive ServerMessage where
  | connectionRefused
  | connected (slot : ℤ) (game : Option String)
  | other
deriving DecidableEq

/-- The slot and game that `connectAP` reads from the server's answer, unless it refuses. -/
def readAnswer : List ServerMessage → ℤ × String → Option (ℤ × String)
  | [], found => some found
  | .connectionRefused :: _, _ => none
  | .connected slot game :: rest, found => readAnswer rest (slot, game.getD found.2)
  | .other :: rest, found => readAnswer rest found

/-- The room: the password store, the registry, the next address for a client, and for the record what
each client gave as its password. -/
structure Gate where
  passwords : ℤ → Option String
  registry : Registry
  fresh : ℕ
  gave : ℕ → Option String

/-- The points of the operations. -/
inductive GateOp where
  /-- `handleConnect`: slot and password are checked, then whether the slot may have the full feed; the
  server is asked; the client is registered. -/
  | checkPassword (msg : ConnectMessage)
  | checkFeed (key : ℤ) (msg : ConnectMessage)
  | connectAP (key : ℤ) (msg : ConnectMessage)
  | enter (msg : ConnectMessage) (slotId : ℤ) (game : String)
  /-- `loadPasswordsIntoStore`: the next slot is looked up (and its password read or deleted), set, and
  kicked if the password is another one. -/
  | loading (slots : List SlotPasswordInfo)
  | setting (key : ℤ) (password : String) (current : Option String) (rest : List SlotPasswordInfo)
  | kicking (key : ℤ) (rest : List SlotPasswordInfo)
deriving DecidableEq

/-- What an operation ended with. -/
inductive GateEnd where
  | connected (client : Client)
  | refused (reason : String)
  | failed
  | loaded
  | left
deriving DecidableEq

/-- A thread: between operations, in one, or just back from one. -/
inductive GateTask where
  | idle
  | running (op : GateOp)
  | ended (e : GateEnd)
deriving DecidableEq

/-- What the environment decides: the calls, the alternative names, the full feed, and what the server
answers. -/
inductive GateInput where
  | handleConnect (msg : ConnectMessage)
  | refreshPasswords (slots : List SlotPasswordInfo)
  | unregister (client : Client)
  | altName (real : Option String)
  | fullFeed (allowed : Bool)
  | answer (response : List ServerMessage)
  | go
  | fail
deriving DecidableEq

/-- Go `validatePassword`. -/
def Gate.validatePassword (w : Gate) (key : ℤ) (provided : Option String) : Bool :=
  match w.passwords key, provided with
  | some password, some given => password = given
  | _, _ => false

/-- One step of an operation. -/
def GateOp.step (room : RoomAuth) (w : Gate) : GateOp → GateInput → Option (Gate × GateTask)
  | .checkPassword msg, .altName real =>
    let msg := { msg with name := real.getD msg.name }
    match room.auth msg.name with
    | none => some (w, .ended (.refused "InvalidSlot"))
    | some (_, key) =>
      if room.perSlotPasswords && !w.validatePassword key msg.password then
        some (w, .ended (.refused "InvalidPassword"))
      else some (w, .running (.checkFeed key msg))
  | .checkFeed key msg, .fullFeed allowed =>
    if allowed then some (w, .running (.connectAP key msg))
    else some (w, .ended (.refused "FullFeedDenial"))
  | .connectAP _ msg, .answer response =>
    match readAnswer response (0, "") with
    | none => some (w, .ended (.refused "ConnectionRefused"))
    | some (slotId, game) => some (w, .running (.enter msg slotId game))
  | .connectAP _ _, .fail => some (w, .ended .failed)
  | .enter msg slotId game, .go =>
    let client : Client := ⟨w.fresh, slotId, game⟩
    some ({ w with
      registry := w.registry.register slotId client game msg.tags
      fresh := w.fresh + 1
      gave := Function.update w.gave w.fresh msg.password }, .ended (.connected client))
  | .loading [], .go => some (w, .ended .loaded)
  | .loading (slot :: rest), .go =>
    match room.auth slot.playerName with
    | none => some (w, .running (.loading rest))
    | some (_, key) =>
      match slot.password with
      | none =>
        some ({ w with passwords := Function.update w.passwords key none }, .running (.loading rest))
      | some password =>
        if password = "" then
          some ({ w with passwords := Function.update w.passwords key none }, .running (.loading rest))
        else some (w, .running (.setting key password (w.passwords key) rest))
  | .setting key password current rest, .go =>
    some ({ w with passwords := Function.update w.passwords key (some password) },
      if current = some password then .running (.loading rest) else .running (.kicking key rest))
  | .kicking key rest, .go =>
    some ({ w with registry := w.registry.kick key }, .running (.loading rest))
  | _, _ => none

/-- The room as a machine. -/
def gateMachine (room : RoomAuth) : Machine Gate GateTask GateInput :=
  fun _ w t x =>
    match t, x with
    | .running op, x => op.step room w x
    | _, .handleConnect msg => some (w, .running (.checkPassword msg))
    | _, .refreshPasswords slots => some (w, .running (.loading slots))
    | _, .unregister client =>
      some ({ w with registry := w.registry.unregister client }, .ended .left)
    | _, _ => none

/-! ## Who stays in -/

/-- A kick of the slot is still to come in a refresh that has read another password. -/
def GateTask.WillKick (key : ℤ) : GateTask → Prop
  | .running (.setting k password current _) => k = key ∧ current ≠ some password
  | .running (.kicking k _) => k = key
  | _ => False

def Pending (s : Conf Gate GateTask) (key : ℤ) : Prop := ∃ i, (s.pc i).WillKick key

/-- The clients of a slot gave the password that the store holds for it. -/
def Gate.Held (w : Gate) (key : ℤ) : Prop :=
  ∀ c ∈ w.registry.clients.get key, ∃ password, w.passwords key = some password ∧
    w.gave c.ptr = some password

/-- The steps that lock out whom they should: a client is registered while the store holds the password it
gave for its slot; a password is taken away when nobody is in; and a password that was found unchanged is
still there when it is set, or nobody is in. Nothing is asked while a kick of the slot is still to come. -/
def Locking (room : RoomAuth) : Cond Gate GateTask GateInput :=
  fun _ s i x =>
    match s.pc i, x with
    | .running (.enter msg slotId _), .go =>
      s.shared.passwords slotId = msg.password ∨ Pending s slotId
    | .running (.loading (slot :: _)), .go =>
      ∀ team key, room.auth slot.playerName = some (team, key) →
        slot.password = none ∨ slot.password = some "" →
          s.shared.registry.clients.get key = [] ∨ Pending s key
    | .running (.setting key password current _), .go =>
      current = some password → s.shared.passwords key = some password ∨
        s.shared.registry.clients.get key = [] ∨ Pending s key
    | _, _ => True

/-- A client that was let through gave some password. -/
def GateTask.Gave : GateTask → Prop
  | .running (.checkFeed _ msg) | .running (.connectAP _ msg) | .running (.enter msg _ _) =>
    msg.password.isSome
  | _ => True

/-- What holds along a run. -/
structure Guarded (s : Conf Gate GateTask) : Prop where
  held : ∀ key, s.shared.Held key ∨ Pending s key
  known : ∀ key, ∀ c ∈ s.shared.registry.clients.get key, c.ptr < s.shared.fresh
  gave : ∀ i, (s.pc i).Gave

lemma validatePassword_isSome {w : Gate} {key : ℤ} {given : Option String}
    (h : w.validatePassword key given = true) : given.isSome := by
  unfold Gate.validatePassword at h
  split at h
  · rfl
  · cases h

/-- Whom a step lets through gave some password. -/
lemma GateOp.step_gave {room : RoomAuth} (perSlot : room.perSlotPasswords = true) {w w' : Gate}
    {op : GateOp} {x : GateInput} {t : GateTask} (h : (GateTask.running op).Gave)
    (st : op.step room w x = some (w', t)) : t.Gave := by
  cases op with
  | checkPassword msg =>
    cases x with
    | altName real =>
      simp only [GateOp.step, perSlot, Bool.true_and] at st
      split at st
      · cases st
        trivial
      · split at st
        · cases st
          trivial
        · rename_i valid
          cases st
          simp only [Bool.not_eq_true, Bool.not_eq_false'] at valid
          exact validatePassword_isSome valid
    | _ => cases st
  | checkFeed key msg =>
    cases x with
    | fullFeed allowed =>
      simp only [GateOp.step] at st
      split at st
      · cases st
        exact h
      · cases st
        trivial
    | _ => cases st
  | connectAP key msg =>
    cases x with
    | answer response =>
      simp only [GateOp.step] at st
      split at st
      · cases st
        trivial
      · cases st
        exact h
    | fail =>
      cases st
      trivial
    | _ => cases st
  | enter msg slotId game =>
    cases x with
    | go =>
      cases st
      trivial
    | _ => cases st
  | loading slots =>
    cases slots with
    | nil =>
      cases x with
      | go =>
        cases st
        trivial
      | _ => cases st
    | cons slot rest =>
      cases x with
      | go =>
        simp only [GateOp.step] at st
        repeat' split at st
        all_goals
          cases st
          trivial
      | _ => cases st
  | setting key password current rest =>
    cases x with
    | go =>
      cases st
      split <;> trivial
    | _ => cases st
  | kicking key rest =>
    cases x with
    | go =>
      cases st
      trivial
    | _ => cases st

lemma Pending.of_running {s : Conf Gate GateTask} {i : ℕ} {w : Gate} {t : GateTask} {key : ℤ}
    (pending : Pending s key) (stays : (s.pc i).WillKick key → t.WillKick key) :
    Pending (s.move i w t) key := by
  obtain ⟨j, will⟩ := pending
  refine ⟨j, ?_⟩
  rcases s.move_pc i w t j with ⟨rfl, eq⟩ | ⟨-, eq⟩ <;> rw [eq]
  · exact stays will
  · exact will

lemma Pending.of_task {s : Conf Gate GateTask} {i : ℕ} {w : Gate} {t : GateTask} {key : ℤ}
    (will : t.WillKick key) : Pending (s.move i w t) key := by
  refine ⟨i, ?_⟩
  rwa [Conf.move_pc_self]

/-- A step whose thread has what it needs, and after which each slot is in order or still to be kicked. -/
lemma Guarded.of_step {s : Conf Gate GateTask} (h : Guarded s) {i : ℕ} {w : Gate} {t : GateTask}
    (gave : t.Gave) (known : ∀ key, ∀ c ∈ w.registry.clients.get key, c.ptr < w.fresh)
    (held : ∀ key, w.Held key ∨ Pending (s.move i w t) key) : Guarded (s.move i w t) where
  held := held
  known := known
  gave k := by
    rcases s.move_pc i w t k with ⟨-, eq⟩ | ⟨-, eq⟩ <;> rw [eq]
    · exact gave
    · exact h.gave k

/-- A slot stays in order while no client comes and its password is kept. -/
lemma Gate.Held.mono {w w' : Gate} {key : ℤ} (h : w.Held key)
    (clients : ∀ c ∈ w'.registry.clients.get key, c ∈ w.registry.clients.get key)
    (same : w'.passwords key = w.passwords key) (gave : w'.gave = w.gave) : w'.Held key := by
  intro c hc
  rw [same, gave]
  exact h c (clients c hc)

/-- A slot without clients is in order. -/
lemma Gate.held_of_nil {w : Gate} {key : ℤ} (nil : w.registry.clients.get key = []) :
    w.Held key := by
  intro c hc
  rw [nil] at hc
  cases hc

/-- A step that changes neither store nor registry, of a thread that was not to kick. -/
lemma Guarded.silent {s : Conf Gate GateTask} (h : Guarded s) {i : ℕ} {t : GateTask}
    (not : ∀ key, ¬ (s.pc i).WillKick key) (gave : t.Gave) : Guarded (s.move i s.shared t) := by
  refine h.of_step gave h.known ?_
  intro key
  rcases h.held key with held | pending
  · exact .inl held
  · exact .inr (pending.of_running fun will => absurd will (not key))

/-- A change of one slot's password that is in order for that slot. -/
lemma Guarded.setPassword {s : Conf Gate GateTask} (h : Guarded s) {i : ℕ} {t : GateTask}
    {key : ℤ} {password : Option String} (gave : t.Gave)
    (not : ∀ k, k ≠ key → ¬ (s.pc i).WillKick k)
    (mine : Gate.Held { s.shared with passwords := Function.update s.shared.passwords key password } key ∨
      Pending (s.move i { s.shared with
        passwords := Function.update s.shared.passwords key password } t) key) :
    Guarded (s.move i { s.shared with
      passwords := Function.update s.shared.passwords key password } t) := by
  refine h.of_step gave h.known ?_
  intro k
  by_cases e : k = key
  · subst e
    exact mine
  · rcases h.held k with held | pending
    · exact .inl (held.mono (fun _ hc => hc) (Function.update_of_ne e _ _) rfl)
    · exact .inr (pending.of_running fun will => absurd will (not k e))

/-- The registration of a client. -/
lemma Guarded.enter {s : Conf Gate GateTask} (h : Guarded s) {i : ℕ} {msg : ConnectMessage}
    {slotId : ℤ} {game : String} {e : GateEnd} (not : ∀ key, ¬ (s.pc i).WillKick key)
    (given : msg.password.isSome)
    (lock : s.shared.passwords slotId = msg.password ∨ Pending s slotId) :
    Guarded (s.move i { s.shared with
      registry := s.shared.registry.register slotId ⟨s.shared.fresh, slotId, game⟩ game msg.tags
      fresh := s.shared.fresh + 1
      gave := Function.update s.shared.gave s.shared.fresh msg.password } (.ended e)) := by
  have members : ∀ {key : ℤ} {c : Client},
      c ∈ (s.shared.registry.clients.push slotId ⟨s.shared.fresh, slotId, game⟩).get key →
        c ∈ s.shared.registry.clients.get key ∨ key = slotId ∧ c.ptr = s.shared.fresh := by
    intro key c hc
    rw [ListMap.push, ListMap.get_update] at hc
    split at hc
    · rename_i eq
      rcases List.mem_append.1 hc with old | new
      · exact .inl (eq ▸ old)
      · exact .inr ⟨eq, by rw [List.mem_singleton.1 new]⟩
    · exact .inl hc
  refine h.of_step trivial ?_ ?_
  · intro key c hc
    rcases members hc with old | ⟨-, new⟩
    · exact Nat.lt_succ_of_lt (h.known key c old)
    · exact new ▸ Nat.lt_succ_self _
  · intro key
    have stays : Pending s key → ∀ w, Pending (s.move i w (.ended e)) key := fun pending _ =>
      pending.of_running fun will => absurd will (not key)
    rcases h.held key with held | pending
    · -- what the clients before this one gave is still on record
      have before : ∀ c ∈ s.shared.registry.clients.get key, ∃ password,
          s.shared.passwords key = some password ∧
            Function.update s.shared.gave s.shared.fresh msg.password c.ptr = some password := by
        intro c old
        obtain ⟨password, stored, gave⟩ := held c old
        refine ⟨password, stored, ?_⟩
        rw [Function.update_of_ne (Nat.ne_of_lt (h.known key c old)), gave]
      by_cases eq : key = slotId
      · subst eq
        rcases lock with lock | pending
        · left
          intro c hc
          rcases members hc with old | ⟨-, new⟩
          · exact before c old
          · obtain ⟨password, gave⟩ := Option.isSome_iff_exists.1 given
            refine ⟨password, lock.trans gave, ?_⟩
            show Function.update s.shared.gave s.shared.fresh msg.password c.ptr = _
            rw [new, Function.update_self, gave]
        · exact .inr (stays pending _)
      · left
        intro c hc
        rcases members hc with old | ⟨slot, -⟩
        · exact before c old
        · exact absurd slot eq
    · exact .inr (stays pending _)

/-- The kick of a slot. -/
lemma Guarded.kick {s : Conf Gate GateTask} (h : Guarded s) {i : ℕ} {t : GateTask} {key : ℤ}
    (gave : t.Gave) (not : ∀ k, k ≠ key → ¬ (s.pc i).WillKick k) :
    Guarded (s.move i { s.shared with registry := s.shared.registry.kick key } t) := by
  have members : ∀ {k : ℤ} {c : Client}, c ∈ (s.shared.registry.kick key).clients.get k →
      k ≠ key ∧ c ∈ s.shared.registry.clients.get k := by
    intro k c hc
    rw [Registry.kick_clients, ListMap.get_update] at hc
    split at hc
    · cases hc
    · exact ⟨‹_›, hc⟩
  refine h.of_step gave (fun k c hc => h.known k c (members hc).2) ?_
  intro k
  by_cases e : k = key
  · left
    intro c hc
    exact absurd e (members hc).1
  · rcases h.held k with held | pending
    · exact .inl (held.mono (fun _ hc => (members hc).2) rfl rfl)
    · exact .inr (pending.of_running fun will => absurd will (not k e))

/-- A client that leaves. -/
lemma Guarded.unregister {s : Conf Gate GateTask} (h : Guarded s) {i : ℕ} {t : GateTask} {c : Client}
    (gave : t.Gave) (not : ∀ k, ¬ (s.pc i).WillKick k) :
    Guarded (s.move i { s.shared with registry := s.shared.registry.unregister c } t) := by
  refine h.of_step gave (fun k d hd => h.known k d (Registry.mem_clients_unregister hd)) ?_
  intro k
  rcases h.held k with held | pending
  · exact .inl (held.mono (fun _ hd => Registry.mem_clients_unregister hd) rfl rfl)
  · exact .inr (pending.of_running fun will => absurd will (not k))

/-- A step of an operation keeps the room guarded. -/
lemma Guarded.op_step {room : RoomAuth} (perSlot : room.perSlotPasswords = true)
    {tr : List (Event GateTask GateInput)} {s : Conf Gate GateTask} (h : Guarded s) {i : ℕ}
    {x : GateInput} (lock : Locking room tr s i x) {op : GateOp} (hpc : s.pc i = .running op)
    {w : Gate} {t : GateTask} (st : op.step room s.shared x = some (w, t)) :
    Guarded (s.move i w t) := by
  have mine : (GateTask.running op).Gave := hpc ▸ h.gave i
  have gave : t.Gave := GateOp.step_gave perSlot mine st
  cases op with
  | checkPassword msg =>
    have not : ∀ key, ¬ (s.pc i).WillKick key := fun _ => by rw [hpc]; exact id
    cases x with
    | altName real =>
      simp only [GateOp.step] at st
      repeat' split at st
      all_goals
        cases st
        exact h.silent not gave
    | _ => cases st
  | checkFeed key msg =>
    have not : ∀ key, ¬ (s.pc i).WillKick key := fun _ => by rw [hpc]; exact id
    cases x with
    | fullFeed allowed =>
      simp only [GateOp.step] at st
      split at st
      all_goals
        cases st
        exact h.silent not gave
    | _ => cases st
  | connectAP key msg =>
    have not : ∀ key, ¬ (s.pc i).WillKick key := fun _ => by rw [hpc]; exact id
    cases x with
    | answer response =>
      simp only [GateOp.step] at st
      split at st
      all_goals
        cases st
        exact h.silent not gave
    | fail =>
      cases st
      exact h.silent not gave
    | _ => cases st
  | enter msg slotId game =>
    have not : ∀ key, ¬ (s.pc i).WillKick key := fun _ => by rw [hpc]; exact id
    cases x with
    | go =>
      cases st
      simp only [Locking, hpc] at lock
      exact h.enter not mine lock
    | _ => cases st
  | loading slots =>
    have not : ∀ key, ¬ (s.pc i).WillKick key := fun _ => by rw [hpc]; exact id
    cases slots with
    | nil =>
      cases x with
      | go =>
        cases st
        exact h.silent not gave
      | _ => cases st
    | cons slot rest =>
      cases x with
      | go =>
        simp only [Locking, hpc] at lock
        simp only [GateOp.step] at st
        split at st
        · cases st
          exact h.silent not gave
        · rename_i team key auth
          -- the two ways of a slot without a password
          have delete : slot.password = none ∨ slot.password = some "" →
              Guarded (s.move i { s.shared with
                passwords := Function.update s.shared.passwords key none } (.running (.loading rest))) := by
            intro nothing
            refine h.setPassword trivial (fun k _ => not k) ?_
            rcases lock team key auth nothing with nil | pending
            · exact .inl (Gate.held_of_nil nil)
            · exact .inr (pending.of_running fun will => absurd will (not key))
          split at st
          · rename_i nothing
            cases st
            exact delete (.inl nothing)
          · rename_i password eq
            split at st
            · rename_i empty
              cases st
              exact delete (.inr (empty ▸ eq))
            · cases st
              exact h.silent not gave
      | _ => cases st
  | setting key password current rest =>
    have not : ∀ k, k ≠ key → ¬ (s.pc i).WillKick k := by
      intro k ne
      rw [hpc]
      exact fun will => ne will.1.symm
    cases x with
    | go =>
      simp only [Locking, hpc] at lock
      cases st
      refine h.setPassword gave not ?_
      by_cases same : current = some password
      · rcases lock same with stored | nil | pending
        · rcases h.held key with held | pending
          · exact .inl (held.mono (fun _ hc => hc) (by simp [stored]) rfl)
          · refine .inr (pending.of_running ?_)
            rw [hpc]
            exact fun will => absurd same will.2
        · exact .inl (Gate.held_of_nil nil)
        · refine .inr (pending.of_running ?_)
          rw [hpc]
          exact fun will => absurd same will.2
      · right
        apply Pending.of_task
        rw [if_neg same]
        rfl
    | _ => cases st
  | kicking key rest =>
    have not : ∀ k, k ≠ key → ¬ (s.pc i).WillKick k := by
      intro k ne
      rw [hpc]
      exact fun will => ne (Eq.symm will)
    cases x with
    | go =>
      cases st
      exact h.kick gave not
    | _ => cases st

/-- A step of any thread keeps the room guarded. -/
lemma Guarded.step {room : RoomAuth} (perSlot : room.perSlotPasswords = true)
    {tr : List (Event GateTask GateInput)} {s : Conf Gate GateTask} (h : Guarded s) {i : ℕ}
    {x : GateInput} (lock : Locking room tr s i x) {w : Gate} {t : GateTask}
    (st : gateMachine room i s.shared (s.pc i) x = some (w, t)) : Guarded (s.move i w t) := by
  have call : (∀ key, ¬ (s.pc i).WillKick key) → gateMachine room i s.shared .idle x = some (w, t) →
      Guarded (s.move i w t) := by
    intro not st
    cases x with
    | handleConnect msg =>
      cases st
      exact h.silent not trivial
    | refreshPasswords slots =>
      cases st
      exact h.silent not trivial
    | unregister c =>
      cases st
      exact h.unregister trivial not
    | _ => cases st
  cases hpc : s.pc i with
  | idle =>
    rw [hpc] at st
    exact call (fun _ => by rw [hpc]; exact id) st
  | ended e =>
    rw [hpc] at st
    exact call (fun _ => by rw [hpc]; exact id) (by cases x <;> exact st)
  | running op =>
    rw [hpc] at st
    exact h.op_step perSlot lock hpc st

/-- A room at its start: nobody is in. -/
def GateStart (s : Conf Gate GateTask) : Prop :=
  (∀ i, s.pc i = .idle) ∧ s.shared.registry = .new

/-- Nothing is on its way. -/
def AtRest (s : Conf Gate GateTask) : Prop := ∀ i op, s.pc i ≠ .running op

/-- Who is in gave the password that the slot has now, and nobody is in a slot without a password. -/
def LockedOut (w : Gate) : Prop :=
  (∀ key, ∀ c ∈ w.registry.clients.get key, w.passwords key = w.gave c.ptr) ∧
    ∀ key, w.passwords key = none → w.registry.clients.get key = []

lemma lockedOut_of_held {w : Gate} (held : ∀ key, w.Held key) : LockedOut w := by
  constructor
  · intro key c hc
    obtain ⟨password, stored, gave⟩ := held key c hc
    rw [stored, gave]
  · intro key none
    apply List.eq_nil_iff_forall_not_mem.2
    intro c hc
    obtain ⟨password, stored, -⟩ := held key c hc
    rw [none] at stored
    cases stored

/-- In a run whose steps lock out whom they should, whenever nothing is on its way everybody who is in
gave the password that the slot has now. -/
theorem passwords_lock_out {room : RoomAuth} (perSlot : room.perSlotPasswords = true)
    {s₀ s : Conf Gate GateTask} {tr : List (Event GateTask GateInput)} (start : GateStart s₀)
    (run : Run (gateMachine room) (Locking room) s₀ tr s) (rest : AtRest s) : LockedOut s.shared := by
  have nobody : ∀ key, s₀.shared.registry.clients.get key = [] := by
    intro key
    rw [start.2]
    rfl
  have guarded : Guarded s := by
    refine run.invariant (I := fun _ s => Guarded s) ⟨?_, ?_, ?_⟩ ?_
    · exact fun key => .inl (Gate.held_of_nil (nobody key))
    · intro key c hc
      rw [nobody key] at hc
      cases hc
    · intro i
      rw [start.1 i]
      trivial
    · intro tr s i x w t guarded lock st
      exact guarded.step perSlot lock st
  apply lockedOut_of_held
  intro key
  rcases guarded.held key with held | ⟨i, will⟩
  · exact held
  · cases hpc : s.pc i with
    | running op => exact absurd hpc (rest i op)
    | idle =>
      rw [hpc] at will
      exact will.elim
    | ended e =>
      rw [hpc] at will
      exact will.elim

/-! ## Who stays in after all -/

/-- A room with one player, in slot 1. -/
def onePlayer : RoomAuth := ⟨true, fun name => if name = "A" then some (0, 1) else none⟩

def emptyRoom : Conf Gate GateTask := ⟨⟨fun _ => none, .new, 0, fun _ => none⟩, fun _ => .idle⟩

lemma emptyRoom_start : GateStart emptyRoom := ⟨fun _ => rfl, rfl⟩

/-- `i` starts a refresh with this password for the player. -/
def refreshing (i : ℕ) (password : Option String) : List (ℕ × GateInput) :=
  [(i, .refreshPasswords [⟨1, "A", password⟩])]

/-- `i` connects up to the registration. -/
def connecting (i : ℕ) (password : String) : List (ℕ × GateInput) :=
  [(i, .handleConnect ⟨"A", some password, []⟩), (i, .altName none), (i, .fullFeed true),
    (i, .answer [.connected 1 (some "G")])]

/-- `i` goes on for `n` steps. -/
def going (i n : ℕ) : List (ℕ × GateInput) := List.replicate n (i, .go)

/-- The password changes after it was checked and before the client is registered. -/
def changedInBetween : List (ℕ × GateInput) :=
  refreshing 0 (some "old") ++ going 0 4 ++ connecting 1 "old" ++ refreshing 0 (some "new") ++
    going 0 4 ++ going 1 1

/-- The password is taken away while the client is in. -/
def takenAway : List (ℕ × GateInput) :=
  refreshing 0 (some "old") ++ going 0 4 ++ connecting 1 "old" ++ going 1 1 ++ refreshing 0 none ++
    going 0 2

/-- A refresh that has read the old password sets it again after another one has changed it. -/
def putBack : List (ℕ × GateInput) :=
  refreshing 0 (some "old") ++ going 0 4 ++ refreshing 0 (some "old") ++ going 0 1 ++
    refreshing 2 (some "new") ++ going 2 4 ++ connecting 1 "new" ++ going 1 1 ++ going 0 2

def GateTask.isRunning : GateTask → Bool
  | .running _ => true
  | _ => false

lemma atRest_of_isRunning {s : Conf Gate GateTask} (h : ∀ i, (s.pc i).isRunning = false) :
    AtRest s := by
  intro i op hpc
  have idle := h i
  rw [hpc] at idle
  cases idle

/-- A client in slot 1 that gave another password than the slot has. -/
def Gate.strangers (w : Gate) : List Client :=
  (w.registry.clients.get 1).filter fun c => w.passwords 1 ≠ w.gave c.ptr

lemma not_lockedOut {w : Gate} (h : w.strangers ≠ []) : ¬ LockedOut w := by
  intro locked
  obtain ⟨c, hc⟩ := List.exists_mem_of_ne_nil _ h
  obtain ⟨mem, ne⟩ := List.mem_filter.1 hc
  exact of_decide_eq_true ne (locked.1 1 c mem)

/-- A schedule that leaves the room at rest with a client that is not locked out. -/
def StaysIn (l : List (ℕ × GateInput)) : Prop :=
  Run (gateMachine onePlayer) Cond.any emptyRoom (traceOf (gateMachine onePlayer) emptyRoom l)
      (finalOf (gateMachine onePlayer) emptyRoom l) ∧
    AtRest (finalOf (gateMachine onePlayer) emptyRoom l) ∧
    ¬ LockedOut (finalOf (gateMachine onePlayer) emptyRoom l).shared

lemma finalOf_atRest {l : List (ℕ × GateInput)} (bound : ∀ a ∈ l, a.1 < 3)
    (rest : ∀ k < 3, ((finalOf (gateMachine onePlayer) emptyRoom l).pc k).isRunning = false) :
    AtRest (finalOf (gateMachine onePlayer) emptyRoom l) :=
  atRest_of_isRunning (finalOf_forall (P := fun _ (t : GateTask) => t.isRunning = false) (fun _ => rfl) bound rest)

/-- The three ways to stay in with a password that the slot does not have. -/
theorem passwords_let_stay :
    StaysIn changedInBetween ∧ StaysIn takenAway ∧ StaysIn putBack := by
  refine ⟨⟨exec_run_any (by decide), finalOf_atRest (by decide) (by decide),
    not_lockedOut (by decide)⟩, ⟨exec_run_any (by decide),
    finalOf_atRest (by decide) (by decide), not_lockedOut (by decide)⟩,
    exec_run_any (by decide), finalOf_atRest (by decide) (by decide),
    not_lockedOut (by decide)⟩

/-- The condition on a step, as far as it can be read off the store and the registry. -/
def locks (room : RoomAuth) (s : Conf Gate GateTask) (i : ℕ) (x : GateInput) : Bool :=
  match s.pc i, x with
  | .running (.enter msg slotId _), .go => s.shared.passwords slotId = msg.password
  | .running (.loading (slot :: _)), .go =>
    match room.auth slot.playerName with
    | none => true
    | some (_, key) =>
      (slot.password ≠ none ∧ slot.password ≠ some "") ∨ s.shared.registry.clients.get key = []
  | .running (.setting key password current _), .go =>
    current ≠ some password ∨ s.shared.passwords key = some password
  | _, _ => true

lemma locking_of_locks {room : RoomAuth} {tr : List (Event GateTask GateInput)}
    {s : Conf Gate GateTask} {i : ℕ} {x : GateInput} (h : locks room s i x = true) :
    Locking room tr s i x := by
  unfold Locking
  split
  · rename_i msg slotId game hpc
    simp only [locks, hpc, decide_eq_true_eq] at h
    exact .inl h
  · rename_i slot rest hpc
    intro team key auth nothing
    simp only [locks, hpc, auth, decide_eq_true_eq] at h
    rcases h with ⟨some, nonempty⟩ | nil
    · rcases nothing with e | e
      · exact absurd e some
      · exact absurd e nonempty
    · exact .inl nil
  · rename_i key password current rest hpc
    intro same
    simp only [locks, hpc, decide_eq_true_eq] at h
    rcases h with ne | stored
    · exact absurd same ne
    · exact .inl stored
  · trivial

/-- The client connects, is kicked by a refresh, and connects again with the new password. -/
def connectedAgain : List (ℕ × GateInput) :=
  refreshing 0 (some "old") ++ going 0 4 ++ connecting 1 "old" ++ going 1 1 ++
    refreshing 0 (some "new") ++ going 0 4 ++ connecting 2 "new" ++ going 2 1

/-- After that one client is in, with the new password. -/
theorem connectedAgain_locks_out :
    ((finalOf (gateMachine onePlayer) emptyRoom connectedAgain).shared.registry.clients.get 1).length =
        1 ∧ LockedOut (finalOf (gateMachine onePlayer) emptyRoom connectedAgain).shared :=
  ⟨by decide, passwords_lock_out (show onePlayer.perSlotPasswords = true from rfl) emptyRoom_start
    (exec_run_checked locking_of_locks (by decide))
    (finalOf_atRest (by decide) (by decide))⟩

end ArchipelagoXL.Apx
