import ArchipelagoXL.Lib.Interleave

/-!
# Lobby processes on one index

Every lobby process (`P` names them) has its own copy of the index and remembers the last
announcement it acted on. A refresh loads the newest commit and announces it in Valkey; the follower of
each process loads what was announced. The machine cuts the operations of `IndexManager` at each
access of `loaded`, `seen_announcement` and the announced commit; any number of them run at once in
any process, loads one at a time behind the process's load lock.

`announce` reads what is loaded and then remembers it as seen, without the load lock. If another
load of the same process comes between the two, the process remembers a commit that it has not
loaded, and when that commit is announced it does not follow (`follower_left_behind`). Without that the
processes meet on the announced commit (`processes_converge`).
-/

namespace ArchipelagoXL.Lobby

open Interleave

/-- What the processes share and what each of them has. -/
structure Indexes (P C : Type) where
  /-- The value of `index:announced`. -/
  announced : Option C
  loaded : P → C
  seen : P → Option C
  /-- The load lock is held. -/
  locked : P → Bool

/-- The operation that `announce`, `follow_once` and `mark_seen` are part of. -/
inductive Caller where
  | refresh
  | announce
  | follow
  | join
deriving DecidableEq

/-- What an operation returned. -/
inductive Ret (C : Type) where
  | updated (commit : C)
  | refreshed
  | told
  | followed (loaded : Bool)
  | joined
  | failed
deriving DecidableEq

/-- What goes on after a load. -/
inductive AfterLoad (C : Type) where
  | update
  | refresh
  | follow (announced : C) (caller : Caller)
deriving DecidableEq

/-- The commit that a load is to find. -/
def AfterLoad.wanted {C : Type} : AfterLoad C → Option C
  | .update => none
  | .refresh => none
  | .follow announced _ => some announced

/-- The points of the operations. `loaded` says whether the operation has loaded an index itself. -/
inductive Op (P C : Type) where
  /-- `load`: waiting for the load lock, fetching the repository, swapping the index in. -/
  | lock (p : P) (after : AfterLoad C)
  | fetch (p : P) (after : AfterLoad C)
  | swap (p : P) (commit : C) (after : AfterLoad C)
  /-- `announce`: reading the loaded commit, and writing it once it is marked. -/
  | ownCommit (p : P) (caller : Caller) (loaded : Bool)
  | publish (p : P) (commit : C) (caller : Caller) (loaded : Bool)
  /-- `mark_seen`, after which `announce` publishes and the others return. -/
  | mark (p : P) (commit : C) (publishes : Bool) (caller : Caller) (loaded : Bool)
  /-- `follow_once`: reading the announced commit, what was seen and what is loaded. -/
  | getAnnounced (p : P) (caller : Caller)
  | checkSeen (p : P) (announced : C) (caller : Caller)
  | checkCommit (p : P) (announced : C) (caller : Caller)
  /-- `join_other_processes`: reading what is loaded and what was announced. -/
  | joinCommit (p : P)
  | joinAnnounced (p : P) (commit : C)
deriving DecidableEq

/-- A thread: between operations, in one, or just back from one. -/
inductive Pc (P C : Type) where
  | idle
  | running (op : Op P C)
  | returned (r : Ret C)
deriving DecidableEq

/-- The operations that can be called; a refresh is an update and the announcement after it. -/
inductive Call (P : Type) where
  | update (p : P)
  | refresh (p : P)
  | announce (p : P)
  | followOnce (p : P)
  | joinOtherProcesses (p : P)
deriving DecidableEq

/-- What the environment decides: the calls, the head of the branch and whether a wanted commit is
found, which commits are ancestors, and failures. -/
inductive Input (P C : Type) where
  | call (c : Call P)
  | go
  | fetched (head : C) (found : Bool)
  | ancestor (b : Bool)
  | fail
deriving DecidableEq

section

variable {P C : Type}

/-- The first point of a call. -/
def Call.start : Call P → Op P C
  | .update p => .lock p .update
  | .refresh p => .lock p .refresh
  | .announce p => .ownCommit p .announce false
  | .followOnce p => .getAnnounced p .follow
  | .joinOtherProcesses p => .joinCommit p

/-- What `announce` or `follow_once` gives back to the operation it is part of. -/
def Caller.ret (loaded : Bool) : Caller → Ret C
  | .refresh => .refreshed
  | .announce => .told
  | .follow => .followed loaded
  | .join => .joined

variable [DecidableEq P] [DecidableEq C]

/-- What a load goes on with once its commit is swapped in. -/
def AfterLoad.next (p : P) (commit : C) : AfterLoad C → Pc P C
  | .update => .returned (.updated commit)
  | .refresh => .running (.ownCommit p .refresh true)
  | .follow announced caller =>
    if commit = announced then .running (.mark p announced false caller true)
    -- the announced commit is not in the repository: what was loaded is announced instead
    else .running (.ownCommit p caller true)

/-- One step of an operation. -/
def Op.step (w : Indexes P C) : Op P C → Input P C → Option (Indexes P C × Pc P C)
  | .lock p after, .go =>
    if w.locked p then none
    else some ({ w with locked := Function.update w.locked p true }, .running (.fetch p after))
  | .fetch p after, .fetched head found =>
    let commit := if found then after.wanted.getD head else head
    some (w, .running (.swap p commit after))
  | .fetch p _, .fail =>
    some ({ w with locked := Function.update w.locked p false }, .returned .failed)
  | .swap p commit after, .go =>
    some ({ w with
      loaded := Function.update w.loaded p commit
      locked := Function.update w.locked p false }, after.next p commit)
  -- the index does not parse, or its apworlds cannot be downloaded
  | .swap p _ _, .fail =>
    some ({ w with locked := Function.update w.locked p false }, .returned .failed)
  | .ownCommit p caller loaded, .go => some (w, .running (.mark p (w.loaded p) true caller loaded))
  | .mark p commit publishes caller loaded, .go =>
    some ({ w with seen := Function.update w.seen p (some commit) },
      if publishes then .running (.publish p commit caller loaded)
      else .returned (caller.ret loaded))
  | .publish _ commit caller loaded, .go =>
    some ({ w with announced := some commit }, .returned (caller.ret loaded))
  | .publish _ _ _ _, .fail => some (w, .returned .failed)
  | .getAnnounced p caller, .go =>
    match w.announced with
    | none => some (w, .returned (caller.ret false))
    | some announced => some (w, .running (.checkSeen p announced caller))
  | .getAnnounced _ _, .fail => some (w, .returned .failed)
  | .checkSeen p announced caller, .go =>
    if w.seen p = some announced then some (w, .returned (caller.ret false))
    else some (w, .running (.checkCommit p announced caller))
  | .checkCommit p announced caller, .go =>
    if w.loaded p = announced then some (w, .running (.mark p announced false caller false))
    else some (w, .running (.lock p (.follow announced caller)))
  | .joinCommit p, .go => some (w, .running (.joinAnnounced p (w.loaded p)))
  | .joinAnnounced p commit, .ancestor b =>
    match w.announced with
    | none => some (w, .running (.ownCommit p .join false))
    | some announced =>
      if announced = commit then some (w, .running (.mark p announced false .join false))
      else if !b then some (w, .running (.getAnnounced p .join))
      else some (w, .running (.ownCommit p .join false))
  | .joinAnnounced _ _, .fail => some (w, .returned .failed)
  | _, _ => none

/-- One step of a thread. -/
def machine : Machine (Indexes P C) (Pc P C) (Input P C) := fun _ w pc x =>
  match pc, x with
  | .running op, x => op.step w x
  | _, .call c => some (w, .running c.start)
  | _, _ => none

@[simp] lemma machine_running (i : ℕ) (w : Indexes P C) (op : Op P C) (x : Input P C) :
    machine i w (.running op) x = op.step w x := by
  cases x <;> rfl

@[simp] lemma machine_idle (i : ℕ) (w : Indexes P C) (c : Call P) :
    machine i w .idle (.call c) = some (w, .running c.start) := rfl

/-- A thread takes a step of its operation, or starts one. -/
lemma machine_cases {i : ℕ} {w w' : Indexes P C} {pc pc' : Pc P C} {x : Input P C}
    (h : machine i w pc x = some (w', pc')) :
    (∃ op, pc = .running op ∧ op.step w x = some (w', pc')) ∨
      (∀ op, pc ≠ .running op) ∧ w' = w ∧ ∃ c : Call P, pc' = .running c.start := by
  cases pc with
  | running op => exact .inl ⟨op, rfl, by simpa using h⟩
  | idle =>
    cases x <;> simp [machine] at h
    obtain ⟨rfl, rfl⟩ := h
    exact .inr ⟨by simp, rfl, _, rfl⟩
  | returned r =>
    cases x <;> simp [machine] at h
    obtain ⟨rfl, rfl⟩ := h
    exact .inr ⟨by simp, rfl, _, rfl⟩

/-- No operation is in progress. -/
def Quiet (s : Conf (Indexes P C) (Pc P C)) : Prop :=
  ∀ i op, s.pc i ≠ .running op

/-- `follow_once` of a process finds nothing to load. -/
def Indexes.Follows (w : Indexes P C) (p : P) : Prop :=
  ∀ a, w.announced = some a → w.seen p = some a ∨ w.loaded p = a

/-- A `follow_once` that runs alone returns `false` exactly then. -/
lemma follows_iff_followOnce {s : Conf (Indexes P C) (Pc P C)} {i : ℕ} {p : P}
    (hi : s.pc i = .idle) :
    s.shared.Follows p ↔ ∃ n r,
      exec machine s [] ((i, .call (.followOnce p)) :: List.replicate n (i, .go)) = some r ∧
        r.2.pc i = .returned (.followed false) := by
  cases ha : s.shared.announced with
  | none =>
    refine ⟨fun _ => ⟨1, ?_⟩, fun _ a h => ?_⟩
    · simp [exec, hi, Call.start, Op.step, ha, Caller.ret]
    · rw [ha] at h
      cases h
  | some a =>
    by_cases hseen : s.shared.seen p = some a
    · refine ⟨fun _ => ⟨2, ?_⟩, fun _ b h => ?_⟩
      · simp [exec, hi, Call.start, Op.step, ha, hseen, Caller.ret, List.replicate_succ]
      · rw [ha] at h
        cases h
        exact .inl hseen
    · by_cases hloaded : s.shared.loaded p = a
      · refine ⟨fun _ => ⟨4, ?_⟩, fun _ b h => ?_⟩
        · simp [exec, hi, Call.start, Op.step, ha, hseen, hloaded, Caller.ret,
            List.replicate_succ]
        · rw [ha] at h
          cases h
          exact .inr hloaded
      · constructor
        · intro h
          rcases h a ha with h | h
          · exact absurd h hseen
          · exact absurd h hloaded
        · -- it goes on to load, and does not come back before the repository answers
          rintro ⟨n, r, hexec, hret⟩
          exfalso
          cases hl : s.shared.locked p <;> rcases n with _ | _ | _ | _ | _ | n <;>
            simp [exec, hi, Call.start, Op.step, ha, hseen, hloaded, hl,
              List.replicate_succ] at hexec
          all_goals
            subst hexec
            simp at hret

/-! ### What a process remembers -/

/-- The operation has loaded an index for a process and has not yet marked a commit as seen. -/
def Op.Owes (p : P) : Op P C → Prop
  | .ownCommit q _ true => q = p
  | .mark q _ _ _ true => q = p
  | _ => False

/-- What a step does to what a process has loaded and remembers: nothing, or it swaps an index in,
or it marks a commit. An operation that owes a mark goes on owing it until it marks. -/
inductive Op.Effect (w : Indexes P C) (op : Op P C) (w' : Indexes P C) (pc : Pc P C) : Prop where
  | keeps : w'.loaded = w.loaded → w'.seen = w.seen →
    (∀ p, op.Owes p → ∃ op', pc = .running op' ∧ op'.Owes p) → Effect w op w' pc
  | swaps {p commit after} : op = .swap p commit after →
    w'.loaded = Function.update w.loaded p commit → w'.seen = w.seen →
    (after = .update ∨ ∃ op', pc = .running op' ∧ op'.Owes p) → Effect w op w' pc
  | marks {p commit publishes caller loaded} : op = .mark p commit publishes caller loaded →
    w'.loaded = w.loaded → w'.seen = Function.update w.seen p (some commit) → Effect w op w' pc

lemma Op.step_effect {w w' : Indexes P C} {op : Op P C} {x : Input P C} {pc : Pc P C}
    (h : op.step w x = some (w', pc)) : op.Effect w w' pc := by
  have hnone : ∀ p, ¬ op.Owes p → op.Owes p → ∃ op', pc = .running op' ∧ op'.Owes p :=
    fun p hn ho => absurd ho hn
  cases op with
  | lock p after =>
    cases x <;> simp [Op.step] at h
    obtain ⟨-, rfl, -⟩ := h
    exact .keeps rfl rfl fun q => hnone q (by simp [Op.Owes])
  | fetch p after =>
    cases x <;> simp [Op.step] at h
    all_goals
      obtain ⟨rfl, -⟩ := h
      exact .keeps rfl rfl fun q => hnone q (by simp [Op.Owes])
  | swap p commit after =>
    cases x <;> simp [Op.step] at h
    · obtain ⟨rfl, rfl⟩ := h
      refine .swaps rfl rfl rfl ?_
      -- but for a bare update, what comes next owes the mark
      cases after with
      | update => exact .inl rfl
      | refresh => exact .inr ⟨_, rfl, rfl⟩
      | follow announced caller =>
        right
        by_cases hfound : commit = announced
        · exact ⟨_, if_pos hfound, rfl⟩
        · exact ⟨_, if_neg hfound, rfl⟩
    · obtain ⟨rfl, -⟩ := h
      exact .keeps rfl rfl fun q => hnone q (by simp [Op.Owes])
  | ownCommit p caller loaded =>
    cases x <;> simp [Op.step] at h
    obtain ⟨rfl, rfl⟩ := h
    refine .keeps rfl rfl ?_
    intro q hq
    refine ⟨_, rfl, ?_⟩
    cases loaded with
    | false => exact hq.elim
    | true => exact hq
  | publish p commit caller loaded =>
    cases x <;> simp [Op.step] at h
    all_goals
      obtain ⟨rfl, -⟩ := h
      exact .keeps rfl rfl fun q => hnone q (by simp [Op.Owes])
  | mark p commit publishes caller loaded =>
    cases x <;> simp [Op.step] at h
    obtain ⟨rfl, -⟩ := h
    exact .marks rfl rfl rfl
  | getAnnounced p caller =>
    cases x <;> simp [Op.step] at h
    · split at h
      all_goals
        cases h
        exact .keeps rfl rfl fun q => hnone q (by simp [Op.Owes])
    · obtain ⟨rfl, -⟩ := h
      exact .keeps rfl rfl fun q => hnone q (by simp [Op.Owes])
  | checkSeen p announced caller =>
    cases x <;> simp [Op.step] at h
    split at h
    all_goals
      cases h
      exact .keeps rfl rfl fun q => hnone q (by simp [Op.Owes])
  | checkCommit p announced caller =>
    cases x <;> simp [Op.step] at h
    split at h
    all_goals
      cases h
      exact .keeps rfl rfl fun q => hnone q (by simp [Op.Owes])
  | joinCommit p =>
    cases x <;> simp [Op.step] at h
    obtain ⟨rfl, -⟩ := h
    exact .keeps rfl rfl fun q => hnone q (by simp [Op.Owes])
  | joinAnnounced p commit =>
    have hsame : w' = w := by
      cases x <;> simp [Op.step] at h
      · split at h
        · cases h
          rfl
        · split at h
          · cases h
            rfl
          · split at h <;> cases h <;> rfl
      · exact h.1.symm
    subst hsame
    exact .keeps rfl rfl fun q => hnone q (by simp [Op.Owes])

/-- A mark is made for the commit that is loaded, and a bare update loads only in a process that has
not seen an announcement yet. -/
def Careful : Cond (Indexes P C) (Pc P C) (Input P C) := fun _ s i x =>
  match s.pc i, x with
  | .running (.mark p commit _ _ _), .go => s.shared.loaded p = commit
  | .running (.swap p _ .update), .go => s.shared.seen p = none
  | _, _ => True

/-- A process remembers nothing, or what it has loaded, or one of its operations is about to mark. -/
def Remembers (s : Conf (Indexes P C) (Pc P C)) (p : P) : Prop :=
  s.shared.seen p = none ∨ s.shared.seen p = some (s.shared.loaded p) ∨
    ∃ i op, s.pc i = .running op ∧ op.Owes p

omit [DecidableEq P] [DecidableEq C] in
/-- A thread other than the one that steps still owes what it owed. -/
lemma owes_of_move {s : Conf (Indexes P C) (Pc P C)} {i : ℕ} {w : Indexes P C} {pc : Pc P C}
    {p : P} (h : ∃ k op, s.pc k = .running op ∧ op.Owes p)
    (hi : ∀ op, s.pc i = .running op → op.Owes p → ∃ op', pc = .running op' ∧ op'.Owes p) :
    ∃ k op, (s.move i w pc).pc k = .running op ∧ op.Owes p := by
  obtain ⟨k, op, hk, ho⟩ := h
  rcases s.move_pc i w pc k with ⟨rfl, hmove⟩ | ⟨-, hmove⟩
  · obtain ⟨op', rfl, ho'⟩ := hi op hk ho
    exact ⟨k, op', hmove, ho'⟩
  · exact ⟨k, op, hmove.trans hk, ho⟩

/-- One careful step of an operation keeps what a process remembers. -/
lemma Remembers.step {s : Conf (Indexes P C) (Pc P C)} {i : ℕ} {op : Op P C} {x : Input P C}
    {w : Indexes P C} {pc : Pc P C} {p : P} {tr : List (Event (Pc P C) (Input P C))}
    (h : Remembers s p) (hop : s.pc i = .running op) (hc : Careful tr s i x)
    (hstep : op.step s.shared x = some (w, pc)) : Remembers (s.move i w pc) p := by
  have hsome : ∀ op', s.pc i = .running op' → op' = op := by
    intro op' h'
    rw [hop] at h'
    injection h' with h'
    exact h'.symm
  cases Op.step_effect hstep with
  | keeps hl hs howes =>
    rcases h with h | h | h
    · exact .inl (by rw [Conf.move_shared, hs, h])
    · exact .inr (.inl (by rw [Conf.move_shared, hs, hl, h]))
    · refine .inr (.inr (owes_of_move h ?_))
      intro op' hop' ho
      rw [hsome op' hop'] at ho
      exact howes p ho
  | @swaps q commit after heq hl hs hnext =>
    subst heq
    have hno : ∀ op', s.pc i = .running op' → op'.Owes p → ∃ op'', pc = .running op'' ∧
        op''.Owes p := by
      intro op' hop' ho
      rw [hsome op' hop'] at ho
      exact ho.elim
    by_cases hp : p = q
    · subst hp
      rcases hnext with rfl | ⟨op', rfl, ho⟩
      · -- a bare update, in a process that has seen nothing
        cases x <;> simp [Op.step] at hstep
        · have hnone : s.shared.seen p = none := by
            simpa [Careful, hop] using hc
          exact .inl (by rw [Conf.move_shared, hs, hnone])
        · obtain ⟨rfl, rfl⟩ := hstep
          rcases h with h | h | h
          · exact .inl h
          · exact .inr (.inl h)
          · exact .inr (.inr (owes_of_move h hno))
      · exact .inr (.inr ⟨i, op', s.move_pc_self i w _, ho⟩)
    · rcases h with h | h | h
      · exact .inl (by rw [Conf.move_shared, hs, h])
      · refine .inr (.inl ?_)
        rw [Conf.move_shared, hs, hl, h, Function.update_of_ne hp]
      · exact .inr (.inr (owes_of_move h hno))
  | @marks q commit publishes caller loaded heq hl hs =>
    subst heq
    cases x <;> simp [Op.step] at hstep
    have hcommit : s.shared.loaded q = commit := by
      simpa [Careful, hop] using hc
    by_cases hp : p = q
    · subst hp
      refine .inr (.inl ?_)
      rw [Conf.move_shared, hs, hl, hcommit, Function.update_self]
    · rcases h with h | h | h
      · exact .inl (by rw [Conf.move_shared, hs, Function.update_of_ne hp, h])
      · exact .inr (.inl (by rw [Conf.move_shared, hs, Function.update_of_ne hp, hl, h]))
      · refine .inr (.inr (owes_of_move h ?_))
        intro op' hop' ho
        rw [hsome op' hop'] at ho
        cases loaded with
        | false => exact ho.elim
        | true => exact absurd ho.symm hp

/-- Along every careful run. -/
lemma remembers_run {s₀ s : Conf (Indexes P C) (Pc P C)}
    {tr : List (Event (Pc P C) (Input P C))} (h₀ : ∀ p, s₀.shared.seen p = none)
    (run : Run machine Careful s₀ tr s) (p : P) : Remembers s p := by
  refine Run.invariant (I := fun _ s => Remembers s p) (.inl (h₀ p)) ?_ run
  intro tr s i x w pc h hc hstep
  rcases machine_cases hstep with ⟨op, hop, hop'⟩ | ⟨hidle, rfl, c, rfl⟩
  · exact h.step hop hc hop'
  · rcases h with h | h | h
    · exact .inl h
    · exact .inr (.inl h)
    · exact .inr (.inr (owes_of_move h fun op hop => absurd hop (hidle op)))

/-- In every state that a careful run reaches, from processes that have seen nothing yet: once no
operation is in progress and no process finds anything to load, every process has loaded the
announced commit. -/
theorem processes_converge {s₀ s : Conf (Indexes P C) (Pc P C)}
    {tr : List (Event (Pc P C) (Input P C))} (h₀ : ∀ p, s₀.shared.seen p = none)
    (run : Run machine Careful s₀ tr s) (quiet : Quiet s) (still : ∀ p, s.shared.Follows p)
    {a : C} (ha : s.shared.announced = some a) (p : P) : s.shared.loaded p = a := by
  rcases still p a ha with hseen | hloaded
  · rcases remembers_run h₀ run p with h | h | ⟨i, op, hop, -⟩
    · rw [hseen] at h
      cases h
    · rw [hseen] at h
      injection h with h
      exact h.symm
    · exact absurd hop (quiet i op)
  · exact hloaded

/-- `Careful`, as a check of one step. -/
def carefully (s : Conf (Indexes P C) (Pc P C)) (i : ℕ) (x : Input P C) : Bool :=
  match s.pc i, x with
  | .running (.mark p commit _ _ _), .go => s.shared.loaded p = commit
  | .running (.swap p _ .update), .go => s.shared.seen p = none
  | _, _ => true

omit [DecidableEq P] in
lemma careful_of_carefully {tr : List (Event (Pc P C) (Input P C))}
    {s : Conf (Indexes P C) (Pc P C)} {i : ℕ} {x : Input P C} (h : carefully s i x = true) :
    Careful tr s i x := by
  unfold carefully at h
  unfold Careful
  split at h <;> simp_all

end

/-! ### Two processes -/

/-- Two processes that have read commit 0 and announced nothing. -/
def twoProcesses : Conf (Indexes Bool ℕ) (Pc Bool ℕ) where
  shared :=
    { announced := none, loaded := fun _ => 0, seen := fun _ => none, locked := fun _ => false }
  pc := fun _ => .idle

/-- A refresh of a process that finds a commit, up to the point where it has read what it loaded. -/
def refreshTo (i : ℕ) (p : Bool) (commit : ℕ) : List (ℕ × Input Bool ℕ) :=
  [(i, .call (.refresh p)), (i, .go), (i, .fetched commit true), (i, .go), (i, .go)]

/-- A `follow_once` of a process that loads what was announced. -/
def followBy (i : ℕ) (p : Bool) : List (ℕ × Input Bool ℕ) :=
  [(i, .call (.followOnce p)), (i, .go), (i, .go), (i, .go), (i, .go), (i, .fetched 0 true),
    (i, .go), (i, .go)]

/-- One process refreshes and the other follows. -/
def plainFollowing : List (ℕ × Input Bool ℕ) :=
  refreshTo 0 false 1 ++ [(0, .go), (0, .go)] ++ followBy 1 true

/-- No thread of a schedule is left in an operation. -/
lemma quiet_of_schedule {l : List (ℕ × Input Bool ℕ)} {b : ℕ} (bound : ∀ a ∈ l, a.1 < b)
    (h : ∀ k < b, (match (finalOf machine twoProcesses l).pc k with
      | .running _ => false
      | _ => true) = true) :
    Quiet (finalOf machine twoProcesses l) := by
  apply finalOf_forall (P := fun _ (pc : Pc Bool ℕ) => ∀ op, pc ≠ .running op) _ bound
  · intro k hk op hop
    have := h k hk
    rw [hop] at this
    cases this
  · intro k op hop
    cases hop

/-- Both processes then have the commit that the first one announced. -/
theorem follower_catches_up :
    ∃ tr s, Run machine Careful twoProcesses tr s ∧ Quiet s ∧ (∀ p, s.shared.Follows p) ∧
      s.shared.announced = some 1 ∧ ∀ p, s.shared.loaded p = 1 := by
  have run : Run machine Careful twoProcesses (traceOf machine twoProcesses plainFollowing)
      (finalOf machine twoProcesses plainFollowing) :=
    exec_run_checked careful_of_carefully (by decide)
  have quiet : Quiet (finalOf machine twoProcesses plainFollowing) :=
    quiet_of_schedule (b := 2) (by decide) (by decide)
  have announced : (finalOf machine twoProcesses plainFollowing).shared.announced = some 1 := by
    decide
  have seen : ∀ p, (finalOf machine twoProcesses plainFollowing).shared.seen p = some 1 := by
    decide
  have still : ∀ p, (finalOf machine twoProcesses plainFollowing).shared.Follows p := by
    intro p a ha
    rw [announced] at ha
    cases ha
    exact .inl (seen p)
  exact ⟨_, _, run, quiet, still, announced, processes_converge (fun _ => rfl) run quiet still
    announced⟩

/-- The first process has loaded 1 and read it for its announcement. The second loads and announces 2,
which the first one's follower loads. Then the first announcement is made, and the second process
follows it. -/
def lateAnnouncement : List (ℕ × Input Bool ℕ) :=
  refreshTo 0 false 1 ++ refreshTo 1 true 2 ++ [(1, .go), (1, .go)] ++ followBy 2 false ++
    [(0, .go), (0, .go)] ++ followBy 3 true

/-- Commit 1 is announced and nobody finds anything to load, but the first process is left with
commit 2. -/
theorem follower_left_behind :
    ∃ tr s, Run machine Cond.any twoProcesses tr s ∧ Quiet s ∧ (∀ p, s.shared.Follows p) ∧
      s.shared.announced = some 1 ∧ s.shared.loaded true = 1 ∧ s.shared.loaded false = 2 := by
  have run : Run machine Cond.any twoProcesses (traceOf machine twoProcesses lateAnnouncement)
      (finalOf machine twoProcesses lateAnnouncement) :=
    exec_run_any (by decide)
  have quiet : Quiet (finalOf machine twoProcesses lateAnnouncement) :=
    quiet_of_schedule (b := 4) (by decide) (by decide)
  have announced : (finalOf machine twoProcesses lateAnnouncement).shared.announced = some 1 := by
    decide
  have seen : ∀ p, (finalOf machine twoProcesses lateAnnouncement).shared.seen p = some 1 := by
    decide
  have still : ∀ p, (finalOf machine twoProcesses lateAnnouncement).shared.Follows p := by
    intro p a ha
    rw [announced] at ha
    cases ha
    exact .inl (seen p)
  exact ⟨_, _, run, quiet, still, announced, by decide, by decide⟩

end ArchipelagoXL.Lobby
