import ArchipelagoXL.Lib.Interleave
import ArchipelagoXL.Lib.WalkMap
import Mathlib.Data.Finset.Basic

/-!
# Who is stuck in the first sphere

A room tells which of its slots have not checked all of their locations in the first sphere (`handleIncompleteSphere1`
in `apx/api.go`). A slot that was seen to be complete is remembered. A request reads the checked locations first and
looks the slots up under a lock after that; refreshes and other requests may come in between.

What is remembered comes from the slots of the sphere, what is answered from the slots of the room. A slot of the room
without an entry in the sphere is never remembered, so it is always listed, though nothing of it is unchecked.
For all others the answer is right for some moment of the request (`incompleteSphere1_exact_iff`).
-/

namespace ArchipelagoXL.Apx

open Interleave

/-! ## Requests and refreshes -/

/-- The locations of the slots in one sphere (Go `SphereLocations`). -/
abbrev SphereLocations := WalkMap Int32 (List ℤ)

/-- What requests read of a room and nothing changes: its spheres and the ids of its slots. -/
structure SlotRoom where
  spheres : List SphereLocations
  slots : List ℤ
  nodup : slots.Nodup

/-- The checked locations of each slot. -/
abbrev CheckedLocations := ℤ → Finset ℤ

/-- What refreshes and requests share. -/
structure Completion where
  checkedLocations : CheckedLocations
  completeSphere1Slots : Finset ℤ

def isSphere1Incomplete (locIDs : List ℤ) (checkedLocations : Finset ℤ) : Bool :=
  match locIDs with
  | [] => false
  | locID :: locIDs => if locID ∉ checkedLocations then true else isSphere1Incomplete locIDs checkedLocations

/-- One turn of the loop over the slots of the sphere. -/
def noteComplete (checkedLocs : CheckedLocations) (complete : Finset ℤ) (e : Int32 × List ℤ) : Finset ℤ :=
  if e.1.toInt ∈ complete then complete
  else if !isSphere1Incomplete e.2 (checkedLocs e.1.toInt) then insert e.1.toInt complete
  else complete

/-- Where a thread is: not in a call, in a request that has read the checked locations, or after a call. -/
inductive SphereOnePc where
  | idle
  | asked (checkedLocs : CheckedLocations)
  | responded (result : List ℤ)
  | refreshed

/-- The calls, and the rest of a request with the orders in which it walks the sphere and the slots of the room. -/
inductive SphereOneInput where
  | refresh (newChecked : CheckedLocations)
  | incompleteSphere1
  | go (sphere1 : List (Int32 × List ℤ)) (slots : List ℤ)

def sphereOneMachine (room : SlotRoom) : Machine Completion SphereOnePc SphereOneInput := fun _ w pc x =>
  match pc, x with
  | .asked checkedLocs, .go sphere1 slots =>
    let complete := sphere1.foldl (noteComplete checkedLocs) w.completeSphere1Slots
    some (⟨w.checkedLocations, complete⟩, .responded (slots.filter fun slotId => slotId ∉ complete))
  | .asked _, _ => none
  | _, .go _ _ => none
  | _, .refresh newChecked => some (⟨newChecked, w.completeSphere1Slots⟩, .refreshed)
  | _, .incompleteSphere1 =>
    match room.spheres with
    | [] => some (w, .responded [])
    | _ :: _ => some (w, .asked w.checkedLocations)

/-- A new room. -/
def sphereOneInit : Conf Completion SphereOnePc := ⟨⟨fun _ => ∅, ∅⟩, fun _ => .idle⟩

/-! ## What is asked of an answer -/

/-- Nothing that was checked is unchecked. -/
def CheckedLocations.Within (old new : CheckedLocations) : Prop := ∀ slotId, old slotId ⊆ new slotId

/-- Locations are only ever checked, and a walk has what it walks over. -/
def Growing (room : SlotRoom) : Cond Completion SphereOnePc SphereOneInput := fun _ s _ x =>
  match x with
  | .refresh newChecked => s.shared.checkedLocations.Within newChecked
  | .incompleteSphere1 => True
  | .go sphere1 slots =>
    (∃ sphere ∈ room.spheres.head?, sphere1.Perm sphere.entries) ∧ slots.Perm room.slots

/-- The checked locations were these at some time. -/
def Held (tr : List (Event SphereOnePc SphereOneInput)) (locs : CheckedLocations) : Prop :=
  locs = (fun _ => ∅) ∨ ∃ ev ∈ tr, ev.input = .refresh locs

/-- The checked locations when a request began; it may begin now. -/
def SphereOnePc.began (w : Completion) : SphereOnePc → CheckedLocations
  | .asked checkedLocs => checkedLocs
  | .idle | .responded _ | .refreshed => w.checkedLocations

/-- A slot has an entry in the first sphere. -/
def SlotRoom.HasEntry (room : SlotRoom) (slotId : ℤ) (locIDs : List ℤ) : Prop :=
  ∃ sphere ∈ room.spheres.head?, ∃ key : Int32, (key, locIDs) ∈ sphere.entries ∧ key.toInt = slotId

/-- A slot has a location in the first sphere that is not checked. -/
def SlotRoom.Incomplete (room : SlotRoom) (locs : CheckedLocations) (slotId : ℤ) : Prop :=
  ∃ locIDs, room.HasEntry slotId locIDs ∧ ∃ locID ∈ locIDs, locID ∉ locs slotId

/-- The answer has the slots of the room with something left to check, each once. -/
structure SlotRoom.Lists (room : SlotRoom) (result : List ℤ) (locs : CheckedLocations) : Prop where
  members : ∀ slotId, slotId ∈ result ↔ slotId ∈ room.slots ∧ room.Incomplete locs slotId
  once : result.Nodup

/-- The answer of a request is right for some moment between its beginning and now. -/
def SlotRoom.Answers (room : SlotRoom) (tr : List (Event SphereOnePc SphereOneInput)) (w : Completion)
    (pc : SphereOnePc) (result : List ℤ) : Prop :=
  ∃ locs, Held tr locs ∧ (pc.began w).Within locs ∧ locs.Within w.checkedLocations ∧ room.Lists result locs

/-- Each slot of the room has an entry in the first sphere, if there are spheres. -/
def SlotRoom.Covered (room : SlotRoom) : Prop :=
  room.spheres ≠ [] → ∀ slotId ∈ room.slots, ∃ locIDs, room.HasEntry slotId locIDs

/-! ## Slots that are complete -/

/-- All locations of a slot in the first sphere are checked. -/
def SlotRoom.Complete (room : SlotRoom) (locs : CheckedLocations) (slotId : ℤ) : Prop :=
  ∃ locIDs, room.HasEntry slotId locIDs ∧ ∀ locID ∈ locIDs, locID ∈ locs slotId

variable {room : SlotRoom} {locs locs' : CheckedLocations} {slotId : ℤ}

lemma isSphere1Incomplete_eq_false_iff {locIDs : List ℤ} {checkedLocations : Finset ℤ} :
    isSphere1Incomplete locIDs checkedLocations = false ↔ ∀ locID ∈ locIDs, locID ∈ checkedLocations := by
  induction locIDs with
  | nil => simp [isSphere1Incomplete]
  | cons locID locIDs ih =>
    rw [isSphere1Incomplete, List.forall_mem_cons, ← ih]
    by_cases checked : locID ∈ checkedLocations <;> simp [checked]

lemma mem_noteComplete {complete : Finset ℤ} {e : Int32 × List ℤ} :
    slotId ∈ noteComplete locs complete e ↔
      slotId ∈ complete ∨ e.1.toInt = slotId ∧ ∀ locID ∈ e.2, locID ∈ locs slotId := by
  rw [noteComplete]
  split
  case isTrue known =>
    refine ⟨.inl, ?_⟩
    rintro (mem | ⟨rfl, -⟩)
    · exact mem
    · exact known
  case isFalse =>
    split
    case isTrue done =>
      rw [Bool.not_eq_true', isSphere1Incomplete_eq_false_iff] at done
      rw [Finset.mem_insert, or_comm]
      apply or_congr_right
      constructor
      · rintro rfl
        exact ⟨rfl, done⟩
      · exact fun noted => noted.1.symm
    case isFalse left =>
      rw [Bool.not_eq_true', isSphere1Incomplete_eq_false_iff] at left
      refine ⟨.inl, ?_⟩
      rintro (mem | ⟨rfl, all⟩)
      · exact mem
      · exact absurd all left

/-- The loop over the sphere notes the slots whose locations are all checked. -/
lemma mem_foldl_noteComplete {sphere1 : List (Int32 × List ℤ)} {complete : Finset ℤ} :
    slotId ∈ sphere1.foldl (noteComplete locs) complete ↔
      slotId ∈ complete ∨ ∃ e ∈ sphere1, e.1.toInt = slotId ∧ ∀ locID ∈ e.2, locID ∈ locs slotId := by
  induction sphere1 generalizing complete with
  | nil => simp
  | cons e sphere1 ih => rw [List.foldl_cons, ih, mem_noteComplete, List.exists_mem_cons_iff, or_assoc]

/-- A slot has one entry at most. -/
lemma SlotRoom.HasEntry.unique {locIDs locIDs' : List ℤ} (h : room.HasEntry slotId locIDs)
    (h' : room.HasEntry slotId locIDs') : locIDs = locIDs' := by
  obtain ⟨sphere, first, key, mem, rfl⟩ := h
  obtain ⟨sphere', first', key', mem', same⟩ := h'
  rw [Option.mem_def] at first first'
  rw [first] at first'
  cases first'
  have keys : key' = key := Int32.toInt_inj.mp same
  have entries := List.inj_on_of_nodup_map sphere.nodup mem' mem keys
  exact (Prod.mk.inj entries).2.symm

lemma SlotRoom.Complete.mono (h : room.Complete locs slotId) (within : locs.Within locs') :
    room.Complete locs' slotId := by
  obtain ⟨locIDs, entry, all⟩ := h
  exact ⟨locIDs, entry, fun locID mem => within slotId (all locID mem)⟩

lemma SlotRoom.incomplete_iff {locIDs : List ℤ} (entry : room.HasEntry slotId locIDs) :
    room.Incomplete locs slotId ↔ ¬ room.Complete locs slotId := by
  constructor
  · rintro ⟨left, has, locID, mem, unchecked⟩ ⟨done, has', all⟩
    rw [has.unique has'] at mem
    exact unchecked (all locID mem)
  · intro incomplete
    by_contra none
    refine incomplete ⟨locIDs, entry, fun locID mem => ?_⟩
    by_contra unchecked
    exact none ⟨locIDs, entry, locID, mem, unchecked⟩

/-- A walk of the first sphere finds the slots that are complete. -/
lemma SlotRoom.complete_iff {sphere1 : List (Int32 × List ℤ)} {sphere : SphereLocations}
    (first : sphere ∈ room.spheres.head?) (walk : sphere1.Perm sphere.entries) :
    (∃ e ∈ sphere1, e.1.toInt = slotId ∧ ∀ locID ∈ e.2, locID ∈ locs slotId) ↔ room.Complete locs slotId := by
  constructor
  · rintro ⟨⟨key, locIDs⟩, mem, same, all⟩
    exact ⟨locIDs, ⟨sphere, first, key, walk.mem_iff.mp mem, same⟩, all⟩
  · rintro ⟨locIDs, ⟨sphere', first', key, mem, same⟩, all⟩
    rw [Option.mem_def] at first first'
    rw [first] at first'
    cases first'
    exact ⟨(key, locIDs), walk.mem_iff.mpr mem, same, all⟩

/-! ## Steps -/

variable {tr : List (Event SphereOnePc SphereOneInput)} {s : Conf Completion SphereOnePc} {i : ℕ}
  {w w' : Completion} {pc pc' : SphereOnePc} {x : SphereOneInput}

/-- What a step can do. -/
inductive SphereOneStep (room : SlotRoom) (w : Completion) (pc : SphereOnePc) :
    SphereOneInput → Completion → SphereOnePc → Prop where
  | refresh {newChecked : CheckedLocations} :
    SphereOneStep room w pc (.refresh newChecked) ⟨newChecked, w.completeSphere1Slots⟩ .refreshed
  | none (free : pc.began w = w.checkedLocations) (nil : room.spheres = []) :
    SphereOneStep room w pc .incompleteSphere1 w (.responded [])
  | ask : SphereOneStep room w pc .incompleteSphere1 w (.asked w.checkedLocations)
  | respond {checkedLocs sphere1 slots complete} (at_ : pc = .asked checkedLocs)
    (noted : complete = sphere1.foldl (noteComplete checkedLocs) w.completeSphere1Slots) :
    SphereOneStep room w pc (.go sphere1 slots) ⟨w.checkedLocations, complete⟩
      (.responded (slots.filter fun slotId => slotId ∉ complete))

lemma SphereOnePc.began_of_not_asked (free : ∀ checkedLocs, pc = .asked checkedLocs → False) :
    pc.began w = w.checkedLocations := by
  cases pc with
  | asked checkedLocs => exact (free checkedLocs rfl).elim
  | _ => rfl

lemma sphereOneMachine_cases (st : sphereOneMachine room i w pc x = some (w', pc')) :
    SphereOneStep room w pc x w' pc' := by
  unfold sphereOneMachine at st
  split at st
  · cases st
    exact .respond rfl rfl
  · cases st
  · cases st
  · cases st
    exact .refresh
  · rename_i free
    split at st
    · rename_i spheres
      cases st
      exact .none (SphereOnePc.began_of_not_asked free) spheres
    · cases st
      exact .ask

/-! ## Runs -/

/-- What a run knows: the checked locations only grew, a request goes on with what they once were, and if any slot is
remembered it is those that were complete at one time. -/
structure Recorded (room : SlotRoom) (tr : List (Event SphereOnePc SphereOneInput))
    (s : Conf Completion SphereOnePc) : Prop where
  held : Held tr s.shared.checkedLocations
  top : ∀ locs, Held tr locs → locs.Within s.shared.checkedLocations
  chain : ∀ locs locs', Held tr locs → Held tr locs' → locs.Within locs' ∨ locs'.Within locs
  asked : ∀ i checkedLocs, s.pc i = .asked checkedLocs → Held tr checkedLocs
  remembered : s.shared.completeSphere1Slots = ∅ ∨
    ∃ locs, Held tr locs ∧ ∀ slotId, slotId ∈ s.shared.completeSphere1Slots ↔ room.Complete locs slotId

lemma Held.cons (h : Held tr locs) (ev : Event SphereOnePc SphereOneInput) : Held (ev :: tr) locs := by
  rcases h with first | ⟨earlier, mem, refresh⟩
  · exact .inl first
  · exact .inr ⟨earlier, List.mem_cons_of_mem _ mem, refresh⟩

lemma held_cons_iff {ev : Event SphereOnePc SphereOneInput} :
    Held (ev :: tr) locs ↔ ev.input = .refresh locs ∨ Held tr locs := by
  rw [Held, Held, List.exists_mem_cons_iff, or_left_comm]

/-- What is remembered after a request comes from one time between its beginning and now. -/
lemma Recorded.complete (h : Recorded room tr s) {checkedLocs : CheckedLocations} (asked : Held tr checkedLocs)
    {sphere1 : List (Int32 × List ℤ)} {sphere : SphereLocations} (first : sphere ∈ room.spheres.head?)
    (walk : sphere1.Perm sphere.entries) :
    ∃ locs, Held tr locs ∧ checkedLocs.Within locs ∧
      ∀ slotId, slotId ∈ sphere1.foldl (noteComplete checkedLocs) s.shared.completeSphere1Slots ↔
        room.Complete locs slotId := by
  have noted : ∀ slotId, slotId ∈ sphere1.foldl (noteComplete checkedLocs) s.shared.completeSphere1Slots ↔
      slotId ∈ s.shared.completeSphere1Slots ∨ room.Complete checkedLocs slotId := by
    intro slotId
    rw [mem_foldl_noteComplete, SlotRoom.complete_iff first walk]
  rcases h.remembered with none | ⟨locs, held, remembered⟩
  · refine ⟨checkedLocs, asked, fun _ => Finset.Subset.refl _, fun slotId => ?_⟩
    rw [noted, none]
    simp
  · rcases h.chain checkedLocs locs asked held with within | within
    · refine ⟨locs, held, within, fun slotId => ?_⟩
      rw [noted, remembered, or_iff_left_iff_imp]
      exact fun complete => complete.mono within
    · refine ⟨checkedLocs, asked, fun _ => Finset.Subset.refl _, fun slotId => ?_⟩
      rw [noted, remembered, or_iff_right_iff_imp]
      exact fun complete => complete.mono within

lemma recorded_init : Recorded room [] sphereOneInit where
  held := .inl rfl
  top locs held := by
    rcases held with rfl | ⟨ev, mem, -⟩
    · exact fun _ => Finset.Subset.refl _
    · cases mem
  chain locs locs' held held' := by
    rcases held with rfl | ⟨ev, mem, -⟩
    · exact .inl fun _ => Finset.empty_subset _
    · cases mem
  asked i checkedLocs asked := by cases asked
  remembered := .inl rfl

/-- After any step a thread that goes on with a request goes on with something held. -/
lemma Recorded.asked_move (h : Recorded room tr s) {p : SphereOnePc}
    (own : ∀ checkedLocs, p = .asked checkedLocs → Held tr checkedLocs) (k : ℕ) {checkedLocs : CheckedLocations}
    (asked : (s.move i w p).pc k = .asked checkedLocs) : Held tr checkedLocs := by
  rcases s.move_pc i w p k with ⟨-, here⟩ | ⟨-, here⟩
  · rw [here] at asked
    exact own checkedLocs asked
  · rw [here] at asked
    exact h.asked k checkedLocs asked

/-- A step that is not a refresh leaves the checked locations. -/
lemma Recorded.quiet (h : Recorded room tr s) {ev : Event SphereOnePc SphereOneInput}
    (quiet : ∀ newChecked, ev.input ≠ .refresh newChecked) {p : SphereOnePc}
    (same : w.checkedLocations = s.shared.checkedLocations)
    (own : ∀ checkedLocs, p = .asked checkedLocs → Held tr checkedLocs)
    (remembered : w.completeSphere1Slots = ∅ ∨
      ∃ locs, Held tr locs ∧ ∀ slotId, slotId ∈ w.completeSphere1Slots ↔ room.Complete locs slotId) :
    Recorded room (ev :: tr) (s.move i w p) := by
  have held : ∀ locs, Held (ev :: tr) locs ↔ Held tr locs := by
    intro locs
    rw [held_cons_iff, or_iff_right (quiet locs)]
  refine ⟨?_, ?_, ?_, ?_, ?_⟩
  · rw [Conf.move_shared, held, same]
    exact h.held
  · intro locs was
    rw [Conf.move_shared, same]
    exact h.top locs ((held locs).mp was)
  · intro locs locs' was was'
    exact h.chain locs locs' ((held locs).mp was) ((held locs').mp was')
  · intro k checkedLocs asked
    exact (held checkedLocs).mpr (h.asked_move own k asked)
  · rw [Conf.move_shared]
    rcases remembered with none | ⟨locs, was, complete⟩
    · exact .inl none
    · exact .inr ⟨locs, (held locs).mpr was, complete⟩

lemma Recorded.refresh (h : Recorded room tr s) {ev : Event SphereOnePc SphereOneInput}
    {newChecked : CheckedLocations} (input : ev.input = .refresh newChecked)
    (grows : s.shared.checkedLocations.Within newChecked) :
    Recorded room (ev :: tr) (s.move i ⟨newChecked, s.shared.completeSphere1Slots⟩ .refreshed) := by
  have held : ∀ locs, Held (ev :: tr) locs → locs = newChecked ∨ Held tr locs := by
    intro locs was
    rw [held_cons_iff, input] at was
    rcases was with new | old
    · cases new
      exact .inl rfl
    · exact .inr old
  have below : ∀ locs, Held tr locs → locs.Within newChecked := fun locs was slotId =>
    (h.top locs was slotId).trans (grows slotId)
  refine ⟨.inr ⟨ev, List.mem_cons_self, input⟩, ?_, ?_, ?_, ?_⟩
  · intro locs was
    rcases held locs was with rfl | old
    · exact fun _ => Finset.Subset.refl _
    · exact below locs old
  · intro locs locs' was was'
    rcases held locs was with rfl | old
    · rcases held locs' was' with rfl | old'
      · exact .inl fun _ => Finset.Subset.refl _
      · exact .inr (below locs' old')
    · rcases held locs' was' with rfl | old'
      · exact .inl (below locs old)
      · exact h.chain locs locs' old old'
  · intro k checkedLocs asked
    have own : ∀ checkedLocs, SphereOnePc.refreshed = .asked checkedLocs → Held tr checkedLocs := by
      intro checkedLocs same
      cases same
    exact (h.asked_move own k asked).cons ev
  · rcases h.remembered with none | ⟨locs, was, complete⟩
    · exact .inl none
    · exact .inr ⟨locs, was.cons ev, complete⟩

lemma recorded_of_run (run : Run (sphereOneMachine room) (Growing room) sphereOneInit tr s) : Recorded room tr s := by
  refine run.invariant recorded_init ?_
  intro tr s i x w p h growing st
  generalize pc_eq : s.pc i = pc at st
  cases sphereOneMachine_cases st with
  | refresh => exact h.refresh rfl growing
  | none free nil =>
    refine h.quiet (by simp) rfl ?_ h.remembered
    intro checkedLocs same
    cases same
  | ask =>
    refine h.quiet (by simp) rfl ?_ h.remembered
    intro checkedLocs same
    cases same
    exact h.held
  | respond at_ noted =>
    obtain ⟨⟨sphere, first, walk⟩, -⟩ := growing
    subst noted
    rw [at_] at pc_eq
    obtain ⟨locs, held, -, complete⟩ := h.complete (h.asked i _ pc_eq) first walk
    refine h.quiet (by simp) rfl ?_ (.inr ⟨locs, held, complete⟩)
    intro checkedLocs same
    cases same

/-! ## Answers -/

/-- The slots that are not remembered are those with something left to check, just if each slot of the room has an
entry. -/
lemma SlotRoom.lists_iff (covered : ∀ slotId ∈ room.slots, ∃ locIDs, room.HasEntry slotId locIDs)
    {slots : List ℤ} (walk : slots.Perm room.slots) {complete : Finset ℤ}
    (remembered : ∀ slotId, slotId ∈ complete ↔ room.Complete locs slotId) :
    room.Lists (slots.filter fun slotId => slotId ∉ complete) locs where
  members slotId := by
    rw [List.mem_filter, walk.mem_iff, decide_eq_true_eq, remembered]
    apply and_congr_right
    intro mem
    obtain ⟨locIDs, entry⟩ := covered slotId mem
    exact (SlotRoom.incomplete_iff entry).symm
  once := (walk.nodup_iff.mpr room.nodup).filter _

/-- Each answer is right for some moment of the request just if each slot of the room has an entry in the first
sphere. -/
theorem incompleteSphere1_exact_iff (room : SlotRoom) {tr : List (Event SphereOnePc SphereOneInput)}
    {s : Conf Completion SphereOnePc} (run : Run (sphereOneMachine room) (Growing room) sphereOneInit tr s)
    {i : ℕ} {x : SphereOneInput} (growing : Growing room tr s i x) {w : Completion} {result : List ℤ}
    (st : sphereOneMachine room i s.shared (s.pc i) x = some (w, .responded result)) :
    room.Answers tr s.shared (s.pc i) result ↔ room.Covered := by
  have h := recorded_of_run run
  generalize pc_eq : s.pc i = pc at st
  cases sphereOneMachine_cases st with
  | none free nil =>
    refine iff_of_true ?_ fun some => absurd nil some
    refine ⟨s.shared.checkedLocations, h.held, ?_, fun _ => Finset.Subset.refl _, ?_, List.nodup_nil⟩
    · rw [free]
      exact fun _ => Finset.Subset.refl _
    · intro slotId
      refine iff_of_false List.not_mem_nil ?_
      rintro ⟨-, locIDs, ⟨sphere, first, -⟩, -⟩
      rw [nil] at first
      cases first
  | @respond checkedLocs sphere1 slots complete at_ noted =>
    obtain ⟨⟨sphere, first, walk⟩, slotsWalk⟩ := growing
    rw [at_] at pc_eq
    obtain ⟨locs, held, within, remembered⟩ := h.complete (h.asked i _ pc_eq) first walk
    rw [← noted] at remembered
    constructor
    · rintro ⟨locs', -, -, -, lists⟩ - slotId mem
      by_contra none
      push Not at none
      have left : slotId ∉ complete := by
        rw [remembered]
        rintro ⟨locIDs, entry, -⟩
        exact none locIDs entry
      have listed : slotId ∈ slots.filter fun slotId => slotId ∉ complete :=
        List.mem_filter.mpr ⟨slotsWalk.mem_iff.mpr mem, decide_eq_true left⟩
      obtain ⟨-, locIDs, entry, -⟩ := (lists.members slotId).mp listed
      exact none locIDs entry
    · intro covered
      have some : room.spheres ≠ [] := by
        intro nil
        rw [nil] at first
        cases first
      rw [at_]
      exact ⟨locs, held, within, h.top locs held, SlotRoom.lists_iff (covered some) slotsWalk remembered⟩

/-- An answer that nothing came in between is right for the time of the request. -/
lemma SlotRoom.Answers.now {result : List ℤ} (answers : room.Answers tr w pc result)
    (alone : pc.began w = w.checkedLocations) : room.Lists result w.checkedLocations := by
  obtain ⟨locs, -, since, before, lists⟩ := answers
  have same : locs = w.checkedLocations := funext fun slotId =>
    (before slotId).antisymm (by simpa only [alone] using since slotId)
  rwa [same] at lists

/-- Two slots with a location each, of which the first is checked. -/
def bothChests : SlotRoom := ⟨[⟨[(1, [10]), (2, [20])], by decide⟩], [1, 2], by decide⟩

def firstChest : CheckedLocations := fun slotId => if slotId = 1 then {10} else ∅

/-- Two slots, of which the second has no location in the first sphere. -/
def oneChest : SlotRoom := ⟨[⟨[(1, [10])], by decide⟩], [1, 2], by decide⟩

theorem bothChests_answered :
    ∃ tr s w, Run (sphereOneMachine bothChests) (Growing bothChests) sphereOneInit tr s ∧
      sphereOneMachine bothChests 0 s.shared (s.pc 0) (.go [(2, [20]), (1, [10])] [1, 2]) =
        some (w, .responded [2]) ∧
      bothChests.Answers tr s.shared (s.pc 0) [2] := by
  have refreshed : Run (sphereOneMachine bothChests) (Growing bothChests) sphereOneInit
      [⟨0, .idle, .refresh firstChest, .refreshed⟩] (sphereOneInit.move 0 ⟨firstChest, ∅⟩ .refreshed) :=
    .cons .nil (fun _ => Finset.empty_subset _) rfl
  have asked := @Run.cons _ _ _ (sphereOneMachine bothChests) (Growing bothChests) sphereOneInit _ _ 0
    .incompleteSphere1 _ _ refreshed trivial rfl
  have walks : ∀ tr s, Growing bothChests tr s 0 (.go [(2, [20]), (1, [10])] [1, 2]) :=
    fun _ _ => ⟨⟨_, rfl, List.Perm.swap _ _ _⟩, List.Perm.refl _⟩
  refine ⟨_, _, _, asked, rfl, (incompleteSphere1_exact_iff bothChests asked (walks _ _) rfl).mpr ?_⟩
  rintro - slotId mem
  rcases List.mem_cons.mp mem with rfl | mem
  · exact ⟨[10], _, rfl, 1, List.mem_cons_self, rfl⟩
  · rw [List.mem_singleton.mp mem]
    exact ⟨[20], _, rfl, 2, List.mem_cons_of_mem _ List.mem_cons_self, rfl⟩

/-- The slot without a location in the first sphere is listed. -/
theorem oneChest_overlisted :
    ¬ ∀ (room : SlotRoom) (tr : List (Event SphereOnePc SphereOneInput)) (s : Conf Completion SphereOnePc)
      (i : ℕ) (x : SphereOneInput) (w : Completion) (result : List ℤ),
      Run (sphereOneMachine room) (Growing room) sphereOneInit tr s → Growing room tr s i x →
      sphereOneMachine room i s.shared (s.pc i) x = some (w, .responded result) →
      room.Answers tr s.shared (s.pc i) result := by
  intro answered
  have asked := @Run.cons _ _ _ (sphereOneMachine oneChest) (Growing oneChest) sphereOneInit [] _ 0
    .incompleteSphere1 _ _ .nil trivial rfl
  obtain ⟨locs, -, -, -, lists⟩ := answered oneChest _ _ 0 (.go [(1, [10])] [1, 2]) _ _ asked
    ⟨⟨_, rfl, List.Perm.refl _⟩, List.Perm.refl _⟩ rfl
  have listed := (lists.members 2).mp (by decide)
  obtain ⟨-, locIDs, ⟨sphere, first, key, mem, same⟩, -⟩ := listed
  cases first
  rw [List.mem_singleton] at mem
  cases mem
  revert same
  decide

end ArchipelagoXL.Apx
