import ArchipelagoXL.Apx.Passwords
import ArchipelagoXL.Lobby.Slots

/-!
# The lobby's passwords in the proxy

The lobby answers the passwords of a room's slots (`slots_passwords` in `lobby/src/views/api.rs`), with the
names as they are written in the YAMLs, and the proxy stores each under the slot that it knows by this name
(`loadPasswordsIntoStore` in `apx/lobby.go`), where it knows the slots by what Archipelago made of the
names.

The passwords reach their slots exactly if Archipelago left all names as they are and no password is empty
(`slotsPasswords_reach_iff`).
-/

namespace ArchipelagoXL.Apx

open Interleave Lobby

section

variable {I : Type} [DecidableEq I]

/-- Rust `slots_passwords`. -/
def slotsPasswords (yamls : List (YamlWithoutContent I)) : List SlotPasswordInfo :=
  let slots := getSlots yamls
  let result := yamls.map fun yaml =>
    { slotNumber := (slots.map Prod.snd).idxOf yaml.id + 1
      playerName := yaml.playerName
      password := yaml.password : SlotPasswordInfo }
  result.insertionSort fun a b => a.slotNumber ≤ b.slotNumber

end

/-- One turn of the loop of Go `loadPasswordsIntoStore`. -/
def Gate.loadPassword (room : RoomAuth) (w : Gate) (slot : SlotPasswordInfo) : Gate :=
  match room.auth slot.playerName with
  | none => w
  | some (_, key) =>
    match slot.password with
    | none => { w with passwords := Function.update w.passwords key none }
    | some password =>
      if password = "" then { w with passwords := Function.update w.passwords key none }
      else
        let set := { w with passwords := Function.update w.passwords key (some password) }
        if w.passwords key = some password then set else { set with registry := set.registry.kick key }

/-- Go `loadPasswordsIntoStore`. -/
def Gate.loadPasswordsIntoStore (room : RoomAuth) (w : Gate) (slots : List SlotPasswordInfo) : Gate :=
  slots.foldl (Gate.loadPassword room) w

/-- The steps of a refresh are all there is to go on with. -/
lemma loading_step {room : RoomAuth} {s : Conf Gate GateTask} {i : ℕ} (op : GateOp) {w : Gate}
    {p : GateTask} {Q : Conf Gate GateTask → Prop} (at_ : s.pc i = .running op)
    (step : op.step room s.shared .go = some (w, p))
    (only : ∀ x r, op.step room s.shared x = some r → x = .go)
    (next : Inevitable (gateMachine room) (fun _ _ => True) i Q (s.move i w p)) :
    Inevitable (gateMachine room) (fun _ _ => True) i Q s := by
  refine .later trivial (by rw [at_]; exact step) ?_
  intro x w' p' _ st
  rw [at_] at st
  obtain rfl : x = .go := only x _ st
  obtain ⟨rfl, rfl⟩ := Prod.mk.inj (Option.some.inj (step.symm.trans st))
  exact next

/-- A refresh that nothing comes between does this. -/
lemma loadPasswordsIntoStore_alone (room : RoomAuth) {s : Conf Gate GateTask} {i : ℕ}
    {slots : List SlotPasswordInfo} (begins : s.pc i = .running (.loading slots)) :
    Inevitable (gateMachine room) (fun _ _ => True) i
      (fun s' => s'.shared = s.shared.loadPasswordsIntoStore room slots ∧ s'.pc i = .ended .loaded) s := by
  have onlyLoading : ∀ w slots x r, GateOp.step room w (.loading slots) x = some r → x = .go := by
    intro w slots x r st
    cases slots <;> cases x <;> first | rfl | cases st
  induction slots generalizing s with
  | nil =>
    apply loading_step _ begins rfl (onlyLoading _ _)
    exact .now ⟨rfl, s.move_pc_self i _ _⟩
  | cons slot rest ih =>
    have turn : ∀ s' : Conf Gate GateTask, s'.shared = s.shared.loadPassword room slot →
        s'.pc i = .running (.loading rest) →
        Inevitable (gateMachine room) (fun _ _ => True) i (fun s' =>
          s'.shared = s.shared.loadPasswordsIntoStore room (slot :: rest) ∧ s'.pc i = .ended .loaded) s' := by
      intro s' after at_
      have rest := ih at_
      rw [after] at rest
      exact rest
    rcases known : room.auth slot.playerName with _ | ⟨team, key⟩
    case none =>
      have step : GateOp.step room s.shared (.loading (slot :: rest)) .go =
          some (s.shared, .running (.loading rest)) := by simp [GateOp.step, known]
      apply loading_step _ begins step (onlyLoading _ _)
      apply turn
      · simp [Gate.loadPassword, known]
      · exact s.move_pc_self i _ _
    case some =>
      rcases given : slot.password with _ | password
      case none =>
        have step : GateOp.step room s.shared (.loading (slot :: rest)) .go =
            some ({ s.shared with passwords := Function.update s.shared.passwords key none },
              .running (.loading rest)) := by simp [GateOp.step, known, given]
        apply loading_step _ begins step (onlyLoading _ _)
        apply turn
        · simp [Gate.loadPassword, known, given]
        · exact s.move_pc_self i _ _
      case some =>
        by_cases empty : password = ""
        · have step : GateOp.step room s.shared (.loading (slot :: rest)) .go =
              some ({ s.shared with passwords := Function.update s.shared.passwords key none },
                .running (.loading rest)) := by simp [GateOp.step, known, given, empty]
          apply loading_step _ begins step (onlyLoading _ _)
          apply turn
          · simp [Gate.loadPassword, known, given, empty]
          · exact s.move_pc_self i _ _
        · have step : GateOp.step room s.shared (.loading (slot :: rest)) .go =
              some (s.shared, .running (.setting key password (s.shared.passwords key) rest)) := by
            simp [GateOp.step, known, given, empty]
          apply loading_step _ begins step (onlyLoading _ _)
          apply loading_step _ (s.move_pc_self i _ _) rfl (fun x r st => by cases x <;> first | rfl | cases st)
          by_cases same : s.shared.passwords key = some password
          · apply turn
            · simp [Gate.loadPassword, known, given, empty, same]
            · rw [Conf.move_pc_self, if_pos same]
          · -- the slot is kicked
            apply loading_step (.kicking key rest) (by rw [Conf.move_pc_self, if_neg same]) rfl
              (fun x r st => by cases x <;> first | rfl | cases st)
            apply turn
            · simp [Gate.loadPassword, known, given, empty, same]
            · rw [Conf.move_pc_self]

/-! ## What is stored -/

/-- Whether a turn of the loop is about a slot. -/
def Hits (room : RoomAuth) (key : ℤ) (slot : SlotPasswordInfo) : Prop :=
  (room.auth slot.playerName).map Prod.snd = some key

/-- What is stored of a password; the empty one counts as none. -/
def stored : Option String → Option String
  | none => none
  | some password => if password = "" then none else some password

variable {room : RoomAuth} {key : ℤ}

/-- A turn stores the password of its slot. -/
lemma Gate.loadPassword_hit (w : Gate) {slot : SlotPasswordInfo} (hits : Hits room key slot) :
    (w.loadPassword room slot).passwords key = stored slot.password := by
  obtain ⟨⟨team, key'⟩, known, rfl⟩ := Option.map_eq_some_iff.mp hits
  rw [loadPassword, known]
  rcases slot.password with _ | password
  case none => exact Function.update_self _ _ _
  case some =>
    by_cases empty : password = ""
    · simp [empty, stored]
    · by_cases same : w.passwords key' = some password
      · simp [empty, same, stored]
      · simp [empty, same, stored]

/-- A turn changes no password of another slot. -/
lemma Gate.loadPassword_other (w : Gate) {slot : SlotPasswordInfo} (other : ¬ Hits room key slot) :
    (w.loadPassword room slot).passwords key = w.passwords key := by
  rw [loadPassword]
  rcases known : room.auth slot.playerName with _ | ⟨team, key'⟩
  case none => rfl
  case some =>
    have ne : key ≠ key' := by
      rintro rfl
      exact other (by rw [Hits, known]; rfl)
    rcases slot.password with _ | password
    case none => exact Function.update_of_ne ne _ _
    case some =>
      by_cases empty : password = ""
      · simp [empty, ne]
      · by_cases same : w.passwords key' = some password
        · simp [empty, same, ne]
        · simp [empty, same, ne]

/-- A slot that no turn is about keeps its password. -/
lemma loadPasswordsIntoStore_other {slots : List SlotPasswordInfo} (none_ : ∀ slot ∈ slots, ¬ Hits room key slot)
    (w : Gate) : (w.loadPasswordsIntoStore room slots).passwords key = w.passwords key := by
  induction slots generalizing w with
  | nil => rfl
  | cons slot rest ih =>
    have others := ih (fun slot mem => none_ slot (List.mem_cons_of_mem _ mem)) (w.loadPassword room slot)
    exact others.trans (w.loadPassword_other (none_ slot List.mem_cons_self))

/-- A slot that turns with one password are about gets this password. -/
lemma loadPasswordsIntoStore_hit {slots : List SlotPasswordInfo} {password : Option String}
    (some_ : ∃ slot ∈ slots, Hits room key slot)
    (all : ∀ slot ∈ slots, Hits room key slot → stored slot.password = password) (w : Gate) :
    (w.loadPasswordsIntoStore room slots).passwords key = password := by
  induction slots generalizing w with
  | nil =>
    obtain ⟨slot, mem, -⟩ := some_
    cases mem
  | cons slot rest ih =>
    have allRest : ∀ slot ∈ rest, Hits room key slot → stored slot.password = password :=
      fun slot mem => all slot (List.mem_cons_of_mem _ mem)
    by_cases later : ∃ slot ∈ rest, Hits room key slot
    · exact ih later allRest _
    · -- this turn is the last one
      have noneLater : ∀ slot ∈ rest, ¬ Hits room key slot := fun slot mem hits => later ⟨slot, mem, hits⟩
      obtain ⟨slot', mem, hits⟩ := some_
      rcases List.mem_cons.mp mem with rfl | mem
      · rw [← all slot' List.mem_cons_self hits, ← w.loadPassword_hit hits]
        exact loadPasswordsIntoStore_other noneLater _
      · exact absurd hits (noneLater slot' mem)

/-! ## Whose password a slot gets -/

/-- The proxy knows each slot of the room by what Archipelago calls its player, and by no other name. -/
structure AuthNames (room : RoomAuth) (names : List String) : Prop where
  known : ∀ (k : ℕ) name, names[k]? = some name → room.auth name = some (0, (k : ℤ) + 1)
  only : ∀ name team, ∀ k < names.length, room.auth name = some (team, (k : ℤ) + 1) → names[k]? = some name

section

variable {I : Type} [DecidableEq I] {roomYamls : List (YamlWithoutContent I)}

lemma mem_slotsPasswords {slot : SlotPasswordInfo} (mem : slot ∈ slotsPasswords roomYamls) :
    ∃ yaml ∈ roomYamls, slot.playerName = yaml.playerName ∧ slot.password = yaml.password := by
  rw [slotsPasswords, List.mem_insertionSort] at mem
  obtain ⟨yaml, hyaml, rfl⟩ := List.mem_map.mp mem
  exact ⟨yaml, hyaml, rfl, rfl⟩

/-- Every YAML has its turn. -/
lemma exists_mem_slotsPasswords {yaml : YamlWithoutContent I} (mem : yaml ∈ roomYamls) :
    ∃ slot ∈ slotsPasswords roomYamls, slot.playerName = yaml.playerName ∧ slot.password = yaml.password := by
  rw [slotsPasswords]
  exact ⟨_, (List.mem_insertionSort _).mpr (List.mem_map_of_mem mem), rfl, rfl⟩

/-- The passwords of the room's YAMLs get to their slots, whatever is stored and registered before. -/
def PasswordsReach (room : RoomAuth) (roomYamls : List (YamlWithoutContent I)) : Prop :=
  ∀ (w : Gate) (k : ℕ) (yaml : YamlWithoutContent I), (slotYamls roomYamls)[k]? = some yaml →
    (w.loadPasswordsIntoStore room (slotsPasswords roomYamls)).passwords ((k : ℤ) + 1) = yaml.password

/-- A proxy with one password for all slots. -/
def Gate.holding (password : Option String) : Gate := ⟨fun _ => password, Registry.new, 0, fun _ => none⟩

/-- A slot can only be met by the name of its own YAML, which is then plain. -/
lemma AuthNames.own_of_hits (auth : AuthNames room (apPlayerNames [] (slotYamls roomYamls)))
    (ids : (roomYamls.map (·.id)).Nodup) (accepted : ∀ yaml ∈ roomYamls, AcceptedName yaml.playerName)
    {k : ℕ} {yaml yaml' : YamlWithoutContent I} (slot : (slotYamls roomYamls)[k]? = some yaml)
    (mem : yaml' ∈ roomYamls) {team : ℤ} (hits : room.auth yaml'.playerName = some (team, (k : ℤ) + 1)) :
    yaml' = yaml ∧ PlainName yaml.playerName := by
  obtain ⟨counted, name⟩ := getElem_apPlayerNames slot []
  have inSlots : yaml ∈ slotYamls roomYamls := List.mem_of_getElem? slot
  have there : yaml ∈ roomYamls := (slotYamls_perm ids).subset inSlots
  have short : k < (apPlayerNames [] (slotYamls roomYamls)).length := by
    exact (List.getElem?_eq_some_iff.mp name).1
  have same := auth.only _ team k short hits
  rw [name] at same
  have plain : PlainName yaml'.playerName :=
    PlainName.of_resolved (accepted yaml' mem).curlyBraces (accepted yaml there).curlyBraces (Option.some.inj same)
  obtain ⟨k', slot'⟩ := List.mem_iff_getElem?.mp ((slotYamls_perm ids).symm.subset mem)
  have own := auth.known k' _ (plain.getElem_apPlayerNames slot' [])
  rw [own] at hits
  have sameSlot : k' = k := by
    have e : (k' : ℤ) + 1 = k + 1 := congrArg Prod.snd (Option.some.inj hits)
    omega
  subst sameSlot
  obtain rfl : yaml' = yaml := Option.some.inj (slot'.symm.trans slot)
  exact ⟨rfl, plain⟩

/-- The passwords reach their slots exactly if all names are plain and no password is empty. -/
theorem slotsPasswords_reach_iff (ids : (roomYamls.map (·.id)).Nodup)
    (accepted : ∀ yaml ∈ roomYamls, AcceptedName yaml.playerName)
    (auth : AuthNames room (apPlayerNames [] (slotYamls roomYamls))) :
    PasswordsReach room roomYamls ↔
      ∀ yaml ∈ roomYamls, PlainName yaml.playerName ∧ yaml.password ≠ some "" := by
  have own : ∀ {k : ℕ} {yaml : YamlWithoutContent I}, (slotYamls roomYamls)[k]? = some yaml →
      ∀ slot ∈ slotsPasswords roomYamls, Hits room ((k : ℤ) + 1) slot →
        stored slot.password = stored yaml.password ∧ PlainName yaml.playerName := by
    intro k yaml atSlot slot mem hits
    obtain ⟨yaml', there, name, password⟩ := mem_slotsPasswords mem
    obtain ⟨⟨team, key⟩, hits, rfl⟩ := Option.map_eq_some_iff.mp hits
    rw [name] at hits
    obtain ⟨rfl, plain⟩ := auth.own_of_hits ids accepted atSlot there hits
    exact ⟨congrArg stored password, plain⟩
  constructor
  · intro reach yaml mem
    obtain ⟨k, atSlot⟩ := List.mem_iff_getElem?.mp ((slotYamls_perm ids).symm.subset mem)
    have hit : ∃ slot ∈ slotsPasswords roomYamls, Hits room ((k : ℤ) + 1) slot := by
      by_contra noHit
      have noHit : ∀ slot ∈ slotsPasswords roomYamls, ¬ Hits room ((k : ℤ) + 1) slot :=
        fun slot hslot hits => noHit ⟨slot, hslot, hits⟩
      -- the slot keeps what was stored before, such as something else
      have keeps : ∀ before, before = yaml.password := by
        intro before
        have after := loadPasswordsIntoStore_other noHit (Gate.holding before)
        exact after.symm.trans (reach (Gate.holding before) k yaml atSlot)
      cases (keeps none).trans (keeps (some "")).symm
    obtain ⟨slot, hslot, hits⟩ := hit
    refine ⟨(own atSlot slot hslot hits).2, fun empty => ?_⟩
    have after := loadPasswordsIntoStore_hit ⟨slot, hslot, hits⟩
      (fun slot hslot hits => (own atSlot slot hslot hits).1) (Gate.holding none)
    rw [reach (Gate.holding none) k yaml atSlot, empty] at after
    cases after
  · intro plain w k yaml atSlot
    have mem : yaml ∈ roomYamls := (slotYamls_perm ids).subset (List.mem_of_getElem? atSlot)
    obtain ⟨plainName, notEmpty⟩ := plain yaml mem
    have kept : stored yaml.password = yaml.password := by
      rcases given : yaml.password with _ | password
      · rfl
      · exact if_neg fun empty => notEmpty (by rw [given, empty])
    apply loadPasswordsIntoStore_hit
    · obtain ⟨slot, hslot, name, -⟩ := exists_mem_slotsPasswords mem
      refine ⟨slot, hslot, ?_⟩
      rw [Hits, name, auth.known k _ (plainName.getElem_apPlayerNames atSlot [])]
      rfl
    · intro slot hslot hits
      rw [(own atSlot slot hslot hits).1, kept]

end

/-- A room of one player. -/
def oneYaml (name : String) : List (YamlWithoutContent ℕ) := [⟨0, name, some "secret"⟩]

/-- The proxy that knows one player. -/
def oneName (name : String) : RoomAuth := ⟨true, fun name' => if name' = name then some (0, 1) else none⟩

lemma oneName_auth (name : String) : AuthNames (oneName name) [name] := by
  constructor
  · intro k name' atSlot
    cases k with
    | zero =>
      obtain rfl := Option.some.inj atSlot
      exact if_pos rfl
    | succ k => cases atSlot
  · intro name' team k short known
    obtain rfl : k = 0 := Nat.lt_one_iff.mp short
    by_cases same : name' = name
    · rw [same]
      rfl
    · rw [oneName] at known
      dsimp only at known
      rw [if_neg same] at known
      cases known

/-- A plain name. -/
theorem oneYaml_reaches : PasswordsReach (oneName "Bob") (oneYaml "Bob") := by
  have names : apPlayerNames [] (slotYamls (oneYaml "Bob")) = ["Bob"] := by decide
  have auth := names ▸ oneName_auth "Bob"
  have accepted : ∀ yaml ∈ oneYaml "Bob", AcceptedName yaml.playerName := by
    intro yaml mem
    obtain rfl := List.mem_singleton.mp mem
    exact ⟨[], [], ("Bob", ["bob"]), by decide⟩
  have ids : ((oneYaml "Bob").map (·.id)).Nodup := List.nodup_singleton _
  refine (slotsPasswords_reach_iff ids accepted auth).mpr ?_
  intro yaml mem
  obtain rfl := List.mem_singleton.mp mem
  exact ⟨⟨by decide, by decide, by decide, by decide, by decide⟩, by decide⟩

/-- A name with a number. -/
theorem numberedYaml_does_not_reach :
    AcceptedName "Bob\x7bnumber\x7d" ∧
      AuthNames (oneName "Bob1") (apPlayerNames [] (slotYamls (oneYaml "Bob\x7bnumber\x7d"))) ∧
      ¬ PasswordsReach (oneName "Bob1") (oneYaml "Bob\x7bnumber\x7d") := by
  refine ⟨⟨[], [], ("Bob1", ["bob\x7bnumber\x7d"]), by decide⟩, ?_, ?_⟩
  · have names : apPlayerNames [] (slotYamls (oneYaml "Bob\x7bnumber\x7d")) = ["Bob1"] := by decide
    rw [names]
    exact oneName_auth "Bob1"
  · intro reach
    have slot : (slotYamls (oneYaml "Bob\x7bnumber\x7d"))[0]? =
        some ⟨0, "Bob\x7bnumber\x7d", some "secret"⟩ := by decide
    have stored := reach (Gate.holding none) 0 _ slot
    exact absurd stored (by decide)

end ArchipelagoXL.Apx
