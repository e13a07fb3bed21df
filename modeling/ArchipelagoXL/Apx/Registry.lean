import ArchipelagoXL.Lib.ListMap
import Mathlib.Data.Finset.Basic
import Mathlib.Data.List.Nodup

/-!
# The connection registry

A room of `apx` keeps its clients in four maps (`apx/server.go`): by slot, by game, by tag, and the tags of
each client. `Presence` says what they are for: which clients are there and which tags they have.

`Kick` takes the clients of a slot out of the lists of their games and tags, but unlike `Unregister` it
leaves the lists that become empty. And a kicked client only has its connection cancelled: a message that is
already read is still handled, and `UpdateTags` then files a client that is not there, which its
`Unregister` does not find. `maps_agree_iff` says that these are the only ways for the maps to go
wrong.
-/

namespace ArchipelagoXL.Apx

/-- A client, known by its address (Go `registeredClient`). -/
structure Client where
  ptr : ℕ
  slotId : ℤ
  game : String
deriving DecidableEq

/-- Go `connectionRegistry`. -/
structure Registry where
  clients : ListMap ℤ Client
  tags : Client → Option (List String)
  clientsByGame : ListMap String Client
  clientsByTag : ListMap String Client

/-- Go `newConnectionRegistry`. -/
def Registry.new : Registry := ⟨fun _ => none, fun _ => none, fun _ => none, fun _ => none⟩

/-- Go `Register`. -/
def Registry.register (r : Registry) (slotId : ℤ) (client : Client) (game : String)
    (tags : List String) : Registry where
  clients := r.clients.push slotId client
  tags := Function.update r.tags client (some tags)
  clientsByGame := r.clientsByGame.push game client
  clientsByTag := r.clientsByTag.pushAll tags client

/-- Go `UpdateTags`. -/
def Registry.updateTags (r : Registry) (client : Client) (tags : List String) : Registry where
  clients := r.clients
  tags := Function.update r.tags client (some tags)
  clientsByGame := r.clientsByGame
  clientsByTag := (r.clientsByTag.discardAll ((r.tags client).getD []) client).pushAll tags client

/-- The body of the loop of `Kick`, less the cancelling of the connection. -/
def Registry.kickClient (r : Registry) (client : Client) : Registry where
  clients := r.clients
  tags := Function.update r.tags client none
  clientsByGame := r.clientsByGame.drop client.game client
  clientsByTag := ((r.tags client).getD []).foldl (fun m tag => m.drop tag client) r.clientsByTag

/-- Go `Kick`. -/
def Registry.kick (r : Registry) (slotId : ℤ) : Registry :=
  let r := (r.clients.get slotId).foldl Registry.kickClient r
  { r with clients := Function.update r.clients slotId none }

/-- Go `Unregister`. -/
def Registry.unregister (r : Registry) (client : Client) : Registry :=
  if client ∈ r.clients.get client.slotId then
    { clients := r.clients.discard client.slotId client
      tags := Function.update r.tags client none
      clientsByGame := r.clientsByGame.discard client.game client
      clientsByTag := r.clientsByTag.discardAll ((r.tags client).getD []) client }
  else r

lemma Registry.kick_clients (r : Registry) (slotId : ℤ) :
    (r.kick slotId).clients = Function.update r.clients slotId none := by
  have loop : ∀ (l : List Client) (r : Registry), (l.foldl Registry.kickClient r).clients = r.clients := by
    intro l
    induction l with
    | nil => exact fun _ => rfl
    | cons c l ih => exact fun r => ih (r.kickClient c)
  rw [Registry.kick, loop]

lemma Registry.mem_clients_unregister {r : Registry} {c d : Client} {slotId : ℤ}
    (h : d ∈ (r.unregister c).clients.get slotId) : d ∈ r.clients.get slotId := by
  unfold Registry.unregister at h
  split at h
  · simp only [ListMap.get_discard, ListMap.drop, ListMap.get_update] at h
    split at h
    · rename_i e
      rw [e]
      exact List.mem_of_mem_erase h
    · exact h
  · exact h

/-! ## What the maps are for -/

/-- Which clients were ever registered, which have left, which are there, and the tags they have. -/
structure Presence where
  seen : Finset Client
  gone : Finset Client
  present : Finset Client
  tagsOf : Client → List String

/-- The operations as the connections of a room issue them: a client is registered for its slot and
its game. -/
inductive RegistryOp where
  | register (client : Client) (tags : List String)
  | updateTags (client : Client) (tags : List String)
  | kick (slotId : ℤ)
  | unregister (client : Client)
deriving DecidableEq

/-- What an operation does to the maps. -/
def Registry.step (r : Registry) : RegistryOp → Registry
  | .register client tags => r.register client.slotId client client.game tags
  | .updateTags client tags => r.updateTags client tags
  | .kick slotId => r.kick slotId
  | .unregister client => r.unregister client

/-- What an operation means. -/
def Presence.step (p : Presence) : RegistryOp → Presence
  | .register client tags =>
    { p with
      seen := insert client p.seen
      present := insert client p.present
      tagsOf := Function.update p.tagsOf client tags }
  | .updateTags client tags => { p with tagsOf := Function.update p.tagsOf client tags }
  | .kick slotId => { p with present := p.present.filter fun c => c.slotId ≠ slotId }
  | .unregister client =>
    { p with
      gone := insert client p.gone
      present := p.present.erase client }

/-- The order that a connection keeps to: it registers a fresh client, and unregisters it last. -/
def Presence.Allows (p : Presence) : RegistryOp → Prop
  | .register client _ => client ∉ p.seen
  | .updateTags client _ => client ∈ p.seen ∧ client ∉ p.gone
  | .kick _ => True
  | .unregister client => client ∈ p.seen ∧ client ∉ p.gone

/-- The maps and their meaning after some operations, the newest first. -/
def registryAfter : List RegistryOp → Registry × Presence
  | [] => (.new, ⟨∅, ∅, ∅, fun _ => []⟩)
  | op :: ops => ((registryAfter ops).1.step op, (registryAfter ops).2.step op)

/-- The operations come in an order that the connections can issue. -/
def Orderly : List RegistryOp → Prop
  | [] => True
  | op :: ops => Orderly ops ∧ (registryAfter ops).2.Allows op

/-- The maps say who is there. -/
structure Agrees (r : Registry) (p : Presence) : Prop where
  clients : ∀ s c, c ∈ r.clients.get s ↔ c ∈ p.present ∧ c.slotId = s
  once : ∀ s, (r.clients.get s).Nodup
  byGame : ∀ g c, c ∈ r.clientsByGame.get g ↔ c ∈ p.present ∧ c.game = g
  byTag : ∀ t c, c ∈ r.clientsByTag.get t ↔ c ∈ p.present ∧ t ∈ p.tagsOf c
  tags : ∀ c, (r.tags c).isSome ↔ c ∈ p.present
  noEmpty : r.clients.NoEmpty ∧ r.clientsByGame.NoEmpty ∧ r.clientsByTag.NoEmpty
  empty : p.present = ∅ → r = .new

/-- The game of a client and each of its tags are also that of a client of another slot. -/
def Presence.Shared (p : Presence) (c : Client) : Prop :=
  (∃ d ∈ p.present, d.slotId ≠ c.slotId ∧ d.game = c.game) ∧
    ∀ t ∈ p.tagsOf c, ∃ d ∈ p.present, d.slotId ≠ c.slotId ∧ t ∈ p.tagsOf d

/-- The steps that keep the maps in order: a client changes its tags while it is there, and a slot is kicked
while its clients share their games and tags with other slots. -/
def Presence.Careful (p : Presence) : RegistryOp → Prop
  | .register _ _ => True
  | .updateTags client _ => client ∈ p.present
  | .kick slotId => ∀ c ∈ p.present, c.slotId = slotId → p.Shared c
  | .unregister _ => True

/-- Every step is careful. -/
def AllCareful : List RegistryOp → Prop
  | [] => True
  | op :: ops => AllCareful ops ∧ (registryAfter ops).2.Careful op

/-! ## Counting -/

/-- The maps by number: how often each client is filed under each key. -/
structure Tidy (r : Registry) (p : Presence) : Prop where
  clients : ∀ s c, (r.clients.get s).count c = if c ∈ p.present ∧ c.slotId = s then 1 else 0
  byGame : ∀ g c, (r.clientsByGame.get g).count c = if c ∈ p.present ∧ c.game = g then 1 else 0
  byTag : ∀ t c, (r.clientsByTag.get t).count c = if c ∈ p.present then (p.tagsOf c).count t else 0
  tags : ∀ c, r.tags c = if c ∈ p.present then some (p.tagsOf c) else none
  noEmpty : r.clients.NoEmpty ∧ r.clientsByGame.NoEmpty ∧ r.clientsByTag.NoEmpty
  seen : p.present ⊆ p.seen

lemma Tidy.mem_clients {r : Registry} {p : Presence} (h : Tidy r p) {s : ℤ} {c : Client} :
    c ∈ r.clients.get s ↔ c ∈ p.present ∧ c.slotId = s := by
  rw [← List.count_pos_iff, h.clients]
  split <;> simp_all

lemma Tidy.mem_byGame {r : Registry} {p : Presence} (h : Tidy r p) {g : String} {c : Client} :
    c ∈ r.clientsByGame.get g ↔ c ∈ p.present ∧ c.game = g := by
  rw [← List.count_pos_iff, h.byGame]
  split <;> simp_all

lemma Tidy.mem_byTag {r : Registry} {p : Presence} (h : Tidy r p) {t : String} {c : Client} :
    c ∈ r.clientsByTag.get t ↔ c ∈ p.present ∧ t ∈ p.tagsOf c := by
  rw [← List.count_pos_iff, h.byTag]
  split <;> simp_all [List.count_pos_iff]

lemma Tidy.nodup {r : Registry} {p : Presence} (h : Tidy r p) (s : ℤ) : (r.clients.get s).Nodup := by
  apply List.nodup_iff_count_le_one.2
  intro c
  rw [h.clients]
  split <;> omega

/-- Counting gives what the maps are to say. -/
lemma Tidy.agrees {r : Registry} {p : Presence} (h : Tidy r p) : Agrees r p where
  clients _ _ := h.mem_clients
  once := h.nodup
  byGame _ _ := h.mem_byGame
  byTag _ _ := h.mem_byTag
  tags c := by
    rw [h.tags]
    split <;> simp_all
  noEmpty := h.noEmpty
  empty none := by
    have nil : ∀ {K : Type} {m : ListMap K Client} {k : K}, m.NoEmpty →
        (∀ c ∈ m.get k, c ∈ p.present) → m k = .none := by
      intro K m k noEmpty sub
      apply noEmpty.eq_none
      apply List.eq_nil_iff_forall_not_mem.2
      intro c hc
      have := sub c hc
      rw [none] at this
      exact Finset.notMem_empty c this
    obtain ⟨clients, tags, byGame, byTag⟩ := r
    rw [Registry.new, Registry.mk.injEq]
    refine ⟨funext fun s => ?_, funext fun c => ?_, funext fun g => ?_, funext fun t => ?_⟩
    · exact nil h.noEmpty.1 fun c hc => (h.mem_clients.1 hc).1
    · have := h.tags c
      rwa [none, if_neg (Finset.notMem_empty c)] at this
    · exact nil h.noEmpty.2.1 fun c hc => (h.mem_byGame.1 hc).1
    · exact nil h.noEmpty.2.2 fun c hc => (h.mem_byTag.1 hc).1

lemma tidy_new : Tidy .new ⟨∅, ∅, ∅, fun _ => []⟩ where
  clients := by simp [Registry.new, ListMap.get]
  byGame := by simp [Registry.new, ListMap.get]
  byTag := by simp [Registry.new, ListMap.get]
  tags := by simp [Registry.new]
  noEmpty := by
    refine ⟨?_, ?_, ?_⟩ <;> intro k e <;> cases e
  seen := Finset.Subset.refl _

/-! ## The operations -/

lemma Tidy.register {r : Registry} {p : Presence} (h : Tidy r p) {c : Client} {tags : List String}
    (fresh : c ∉ p.seen) : Tidy (r.step (.register c tags)) (p.step (.register c tags)) := by
  have absent : c ∉ p.present := fun mem => fresh (h.seen mem)
  refine ⟨?_, ?_, ?_, ?_, ?_, ?_⟩
  · intro s b
    simp only [Registry.step, Registry.register, Presence.step, ListMap.count_push, h.clients,
      Finset.mem_insert]
    by_cases e : b = c
    · subst e
      simp [absent, eq_comm]
    · simp [e]
  · intro g b
    simp only [Registry.step, Registry.register, Presence.step, ListMap.count_push, h.byGame,
      Finset.mem_insert]
    by_cases e : b = c
    · subst e
      simp [absent, eq_comm]
    · simp [e]
  · intro t b
    simp only [Registry.step, Registry.register, Presence.step, ListMap.count_pushAll, h.byTag,
      Finset.mem_insert]
    by_cases e : b = c
    · subst e
      simp [absent]
    · simp [e]
  · intro b
    simp only [Registry.step, Registry.register, Presence.step, Finset.mem_insert]
    by_cases e : b = c
    · subst e
      simp
    · simp [e, h.tags]
  · exact ⟨h.noEmpty.1.push _ _, h.noEmpty.2.1.push _ _, h.noEmpty.2.2.pushAll _ _⟩
  · exact Finset.insert_subset_insert c h.seen

lemma Tidy.updateTags {r : Registry} {p : Presence} (h : Tidy r p) {c : Client} {tags : List String}
    (mem : c ∈ p.present) : Tidy (r.step (.updateTags c tags)) (p.step (.updateTags c tags)) := by
  have old : (r.tags c).getD [] = p.tagsOf c := by
    rw [h.tags, if_pos mem, Option.getD_some]
  refine ⟨h.clients, h.byGame, ?_, ?_, ?_, h.seen⟩
  · intro t b
    simp only [Registry.step, Registry.updateTags, Presence.step, old, ListMap.count_pushAll,
      ListMap.count_discardAll, h.byTag]
    by_cases e : b = c
    · subst e
      simp [mem]
    · simp [e]
  · intro b
    simp only [Registry.step, Registry.updateTags, Presence.step]
    by_cases e : b = c
    · subst e
      simp [mem]
    · simp [e, h.tags]
  · exact ⟨h.noEmpty.1, h.noEmpty.2.1, (h.noEmpty.2.2.discardAll _ _).pushAll _ _⟩

lemma Tidy.unregister {r : Registry} {p : Presence} (h : Tidy r p) {c : Client} :
    Tidy (r.step (.unregister c)) (p.step (.unregister c)) := by
  by_cases mem : c ∈ p.present
  · have filed : c ∈ r.clients.get c.slotId := h.mem_clients.2 ⟨mem, rfl⟩
    have old : (r.tags c).getD [] = p.tagsOf c := by
      rw [h.tags, if_pos mem, Option.getD_some]
    simp only [Registry.step, Registry.unregister, filed, if_true, old]
    refine ⟨?_, ?_, ?_, ?_, ?_, ?_⟩
    · intro s b
      simp only [Presence.step, ListMap.get_discard, ListMap.count_drop, h.clients, Finset.mem_erase]
      by_cases e : b = c
      · subst e
        simp [mem, eq_comm]
      · simp [e]
    · intro g b
      simp only [Presence.step, ListMap.get_discard, ListMap.count_drop, h.byGame, Finset.mem_erase]
      by_cases e : b = c
      · subst e
        simp [mem, eq_comm]
      · simp [e]
    · intro t b
      simp only [Presence.step, ListMap.count_discardAll, h.byTag, Finset.mem_erase]
      by_cases e : b = c
      · subst e
        simp [mem]
      · simp [e]
    · intro b
      simp only [Presence.step, Finset.mem_erase]
      by_cases e : b = c
      · subst e
        simp
      · simp [e, h.tags]
    · exact ⟨h.noEmpty.1.discard _ _, h.noEmpty.2.1.discard _ _, h.noEmpty.2.2.discardAll _ _⟩
    · exact (Finset.erase_subset c p.present).trans h.seen
  · -- the client was kicked: it is not found, and nothing is left to do
    have lost : c ∉ r.clients.get c.slotId := fun filed => mem (h.mem_clients.1 filed).1
    have same : p.present.erase c = p.present := Finset.erase_eq_of_notMem mem
    simp only [Registry.step, Registry.unregister, lost, if_false, Presence.step, same]
    exact ⟨h.clients, h.byGame, h.byTag, h.tags, h.noEmpty, h.seen⟩

/-- The clients that a kick takes out, under their games and under their tags. -/
def gamePairs (l : List Client) : List (String × Client) := l.map fun c => (c.game, c)

def tagPairs (tagsOf : Client → List String) (l : List Client) : List (String × Client) :=
  l.flatMap fun c => (tagsOf c).map fun t => (t, c)

/-- The loop of `Kick`, map by map. -/
lemma foldl_kickClient {r : Registry} {tagsOf : Client → List String} {l : List Client}
    (nodup : l.Nodup) (tags : ∀ c ∈ l, r.tags c = some (tagsOf c)) :
    l.foldl Registry.kickClient r =
      { clients := r.clients
        tags := fun c => if c ∈ l then none else r.tags c
        clientsByGame := r.clientsByGame.dropPairs (gamePairs l)
        clientsByTag := r.clientsByTag.dropPairs (tagPairs tagsOf l) } := by
  induction l generalizing r with
  | nil => simp [gamePairs, tagPairs, ListMap.dropPairs]
  | cons c l ih =>
    obtain ⟨notin, nodup⟩ := List.nodup_cons.1 nodup
    have mine := tags c List.mem_cons_self
    have rest : ∀ d ∈ l, (r.kickClient c).tags d = some (tagsOf d) := by
      intro d hd
      have ne : d ≠ c := fun e => notin (e ▸ hd)
      show Function.update r.tags c none d = _
      rw [Function.update_of_ne ne]
      exact tags d (List.mem_cons_of_mem _ hd)
    rw [List.foldl_cons, ih nodup rest, Registry.mk.injEq]
    refine ⟨rfl, funext fun d => ?_, rfl, ?_⟩
    · show (if d ∈ l then none else Function.update r.tags c none d) = _
      by_cases e : d = c
      · subst e
        simp
      · simp [e]
    · simp only [Registry.kickClient, mine, Option.getD_some, tagPairs, List.flatMap_cons,
        ListMap.dropPairs, List.foldl_append, List.foldl_map]

lemma count_gamePairs {l : List Client} (nodup : l.Nodup) (g : String) (c : Client) :
    (gamePairs l).count (g, c) = if c ∈ l ∧ c.game = g then 1 else 0 := by
  induction l with
  | nil => simp [gamePairs]
  | cons d l ih =>
    obtain ⟨notin, nodup⟩ := List.nodup_cons.1 nodup
    have step : gamePairs (d :: l) = (d.game, d) :: gamePairs l := rfl
    rw [step, List.count_cons, ih nodup]
    by_cases e : c = d
    · subst e
      simp [notin]
    · simp [e, Ne.symm e]

lemma count_tagPairs {tagsOf : Client → List String} {l : List Client} (nodup : l.Nodup) (t : String)
    (c : Client) : (tagPairs tagsOf l).count (t, c) = if c ∈ l then (tagsOf c).count t else 0 := by
  induction l with
  | nil => simp [tagPairs]
  | cons d l ih =>
    obtain ⟨notin, nodup⟩ := List.nodup_cons.1 nodup
    have step : tagPairs tagsOf (d :: l) = (tagsOf d).map (fun t => (t, d)) ++ tagPairs tagsOf l := rfl
    rw [step, List.count_append, ih nodup]
    by_cases e : c = d
    · subst e
      have inj : Function.Injective fun t : String => (t, c) := fun _ _ h => (Prod.mk.inj h).1
      simp [notin, List.count_map_of_injective _ _ inj]
    · have none : (t, c) ∉ (tagsOf d).map fun t => (t, d) := by
        intro mem
        obtain ⟨u, -, eq⟩ := List.mem_map.1 mem
        exact e (Prod.mk.inj eq).2.symm
      simp [e, List.count_eq_zero_of_not_mem none]

/-- What a kick leaves, whether it is careful or not. -/
lemma Tidy.kick_eq {r : Registry} {p : Presence} (h : Tidy r p) (slotId : ℤ) :
    r.kick slotId =
      { clients := Function.update r.clients slotId none
        tags := fun c => if c ∈ r.clients.get slotId then none else r.tags c
        clientsByGame := r.clientsByGame.dropPairs (gamePairs (r.clients.get slotId))
        clientsByTag := r.clientsByTag.dropPairs (tagPairs p.tagsOf (r.clients.get slotId)) } := by
  have tags : ∀ c ∈ r.clients.get slotId, r.tags c = some (p.tagsOf c) := by
    intro c hc
    rw [h.tags, if_pos (h.mem_clients.1 hc).1]
  rw [Registry.kick, foldl_kickClient (h.nodup slotId) tags]

lemma Tidy.kick_byGame {r : Registry} {p : Presence} (h : Tidy r p) (slotId : ℤ) (g : String)
    (c : Client) : ((r.kick slotId).clientsByGame.get g).count c =
      if (c ∈ p.present ∧ c.slotId ≠ slotId) ∧ c.game = g then 1 else 0 := by
  rw [h.kick_eq, ListMap.count_dropPairs, count_gamePairs (h.nodup slotId), h.byGame]
  simp only [h.mem_clients]
  by_cases e : c.slotId = slotId <;> by_cases mem : c ∈ p.present ∧ c.game = g <;> simp_all

lemma Tidy.kick_byTag {r : Registry} {p : Presence} (h : Tidy r p) (slotId : ℤ) (t : String)
    (c : Client) : ((r.kick slotId).clientsByTag.get t).count c =
      if c ∈ p.present ∧ c.slotId ≠ slotId then (p.tagsOf c).count t else 0 := by
  rw [h.kick_eq, ListMap.count_dropPairs, count_tagPairs (h.nodup slotId), h.byTag]
  simp only [h.mem_clients]
  by_cases e : c.slotId = slotId <;> by_cases mem : c ∈ p.present <;> simp_all

lemma Tidy.kick_mem_byGame {r : Registry} {p : Presence} (h : Tidy r p) {slotId : ℤ} {g : String}
    {c : Client} : c ∈ (r.kick slotId).clientsByGame.get g ↔
      c ∈ p.present ∧ c.slotId ≠ slotId ∧ c.game = g := by
  rw [← List.count_pos_iff, h.kick_byGame]
  split <;> simp_all

lemma Tidy.kick_mem_byTag {r : Registry} {p : Presence} (h : Tidy r p) {slotId : ℤ} {t : String}
    {c : Client} : c ∈ (r.kick slotId).clientsByTag.get t ↔
      c ∈ p.present ∧ c.slotId ≠ slotId ∧ t ∈ p.tagsOf c := by
  rw [← List.count_pos_iff, h.kick_byTag]
  split <;> simp_all [List.count_pos_iff]

/-- A kick leaves no empty list exactly if it is careful. -/
lemma Tidy.kick_noEmpty_iff {r : Registry} {p : Presence} (h : Tidy r p) (slotId : ℤ) :
    (r.kick slotId).clientsByGame.NoEmpty ∧ (r.kick slotId).clientsByTag.NoEmpty ↔
      p.Careful (.kick slotId) := by
  have byGame : (r.kick slotId).clientsByGame.NoEmpty ↔
      ∀ c ∈ p.present, c.slotId = slotId → (r.kick slotId).clientsByGame.get c.game ≠ [] := by
    rw [h.kick_eq]
    simp only [h.noEmpty.2.1.dropPairs_iff, gamePairs, List.forall_mem_map, h.mem_clients, and_imp]
  have byTag : (r.kick slotId).clientsByTag.NoEmpty ↔
      ∀ c ∈ p.present, c.slotId = slotId → ∀ t ∈ p.tagsOf c,
        (r.kick slotId).clientsByTag.get t ≠ [] := by
    rw [h.kick_eq]
    simp only [h.noEmpty.2.2.dropPairs_iff, tagPairs, List.forall_mem_flatMap, List.forall_mem_map,
      h.mem_clients, and_imp]
  rw [byGame, byTag]
  constructor
  · intro ⟨games, tags⟩ c mem slot
    constructor
    · obtain ⟨d, hd⟩ := List.exists_mem_of_ne_nil _ (games c mem slot)
      subst slot
      exact ⟨d, h.kick_mem_byGame.1 hd⟩
    · intro t ht
      obtain ⟨d, hd⟩ := List.exists_mem_of_ne_nil _ (tags c mem slot t ht)
      subst slot
      exact ⟨d, h.kick_mem_byTag.1 hd⟩
  · intro careful
    constructor
    · intro c mem slot
      obtain ⟨d, hd⟩ := (careful c mem slot).1
      subst slot
      exact List.ne_nil_of_mem (h.kick_mem_byGame.2 hd)
    · intro c mem slot t ht
      obtain ⟨d, hd⟩ := (careful c mem slot).2 t ht
      subst slot
      exact List.ne_nil_of_mem (h.kick_mem_byTag.2 hd)

lemma Tidy.kick {r : Registry} {p : Presence} (h : Tidy r p) {slotId : ℤ}
    (careful : p.Careful (.kick slotId)) :
    Tidy (r.step (.kick slotId)) (p.step (.kick slotId)) := by
  refine ⟨?_, ?_, ?_, ?_, ?_, ?_⟩
  · intro s c
    simp only [Registry.step, Presence.step, h.kick_eq, ListMap.get_update, Finset.mem_filter]
    by_cases e : s = slotId
    · subst e
      have out : ¬ ((c ∈ p.present ∧ c.slotId ≠ s) ∧ c.slotId = s) := fun ⟨⟨_, ne⟩, eq⟩ => ne eq
      simp [out]
    · rw [if_neg e, h.clients]
      by_cases mem : c ∈ p.present <;> by_cases slot : c.slotId = s <;> simp_all
  · intro g c
    simp only [Registry.step, Presence.step, Finset.mem_filter, h.kick_byGame]
  · intro t c
    simp only [Registry.step, Presence.step, Finset.mem_filter, h.kick_byTag]
  · intro c
    simp only [Registry.step, Presence.step, h.kick_eq, h.mem_clients, Finset.mem_filter, h.tags]
    by_cases mem : c ∈ p.present <;> by_cases slot : c.slotId = slotId <;> simp_all
  · refine ⟨?_, (h.kick_noEmpty_iff slotId).2 careful⟩
    simp only [Registry.step, h.kick_eq]
    exact h.noEmpty.1.update fun e => by cases e
  · exact (Finset.filter_subset _ _).trans h.seen

/-- A careful step keeps the maps tidy. -/
lemma Tidy.step {r : Registry} {p : Presence} (h : Tidy r p) {op : RegistryOp}
    (allowed : p.Allows op) (careful : p.Careful op) : Tidy (r.step op) (p.step op) := by
  cases op with
  | register c tags => exact h.register allowed
  | updateTags c tags => exact h.updateTags careful
  | kick slotId => exact h.kick careful
  | unregister c => exact h.unregister

/-- A step that is not careful puts tidy maps out of order. -/
lemma Tidy.careful_of_agrees {r : Registry} {p : Presence} (h : Tidy r p) {op : RegistryOp}
    (agrees : Agrees (r.step op) (p.step op)) : p.Careful op := by
  cases op with
  | register c tags => trivial
  | unregister c => trivial
  | kick slotId => exact (h.kick_noEmpty_iff slotId).1 agrees.noEmpty.2
  | updateTags c tags =>
    -- whoever changes its tags has an entry, so it has to be there
    apply (agrees.tags c).1
    show (Function.update r.tags c (some tags) c).isSome
    rw [Function.update_self]
    rfl

lemma tidy_after {ops : List RegistryOp} (orderly : Orderly ops) (careful : AllCareful ops) :
    Tidy (registryAfter ops).1 (registryAfter ops).2 := by
  induction ops with
  | nil => exact tidy_new
  | cons op ops ih => exact (ih orderly.1 careful.1).step orderly.2 careful.2

/-- The maps agree in every state of a run exactly if every step of it is careful. -/
theorem maps_agree_iff {ops : List RegistryOp} (orderly : Orderly ops) :
    (∀ past, past <:+ ops → Agrees (registryAfter past).1 (registryAfter past).2) ↔
      AllCareful ops := by
  induction ops with
  | nil =>
    refine ⟨fun _ => trivial, ?_⟩
    intro _ past suffix
    rw [List.suffix_nil.1 suffix]
    exact tidy_new.agrees
  | cons op ops ih =>
    constructor
    · intro agree
      have careful : AllCareful ops :=
        (ih orderly.1).1 fun past suffix => agree past (suffix.trans (List.suffix_cons op ops))
      have tidy := tidy_after orderly.1 careful
      exact ⟨careful, tidy.careful_of_agrees (agree (op :: ops) List.suffix_rfl)⟩
    · intro careful past suffix
      rcases List.suffix_cons_iff.1 suffix with rfl | suffix
      · exact (tidy_after orderly careful).agrees
      · exact (ih orderly.1).2 careful.1 past suffix

instance (p : Presence) (op : RegistryOp) : Decidable (p.Allows op) :=
  match op with
  | .register c _ => inferInstanceAs (Decidable (c ∉ p.seen))
  | .updateTags c _ => inferInstanceAs (Decidable (c ∈ p.seen ∧ c ∉ p.gone))
  | .kick _ => inferInstanceAs (Decidable True)
  | .unregister c => inferInstanceAs (Decidable (c ∈ p.seen ∧ c ∉ p.gone))

instance (p : Presence) (c : Client) : Decidable (p.Shared c) :=
  inferInstanceAs (Decidable ((∃ d ∈ p.present, d.slotId ≠ c.slotId ∧ d.game = c.game) ∧
    ∀ t ∈ p.tagsOf c, ∃ d ∈ p.present, d.slotId ≠ c.slotId ∧ t ∈ p.tagsOf d))

instance (p : Presence) (op : RegistryOp) : Decidable (p.Careful op) :=
  match op with
  | .register _ _ => inferInstanceAs (Decidable True)
  | .updateTags c _ => inferInstanceAs (Decidable (c ∈ p.present))
  | .kick slotId => inferInstanceAs (Decidable (∀ c ∈ p.present, c.slotId = slotId → p.Shared c))
  | .unregister _ => inferInstanceAs (Decidable True)

def decidableOrderly : (ops : List RegistryOp) → Decidable (Orderly ops)
  | [] => inferInstanceAs (Decidable True)
  | op :: ops =>
    have := decidableOrderly ops
    inferInstanceAs (Decidable (Orderly ops ∧ (registryAfter ops).2.Allows op))

def decidableAllCareful : (ops : List RegistryOp) → Decidable (AllCareful ops)
  | [] => inferInstanceAs (Decidable True)
  | op :: ops =>
    have := decidableAllCareful ops
    inferInstanceAs (Decidable (AllCareful ops ∧ (registryAfter ops).2.Careful op))

instance (ops : List RegistryOp) : Decidable (Orderly ops) := decidableOrderly ops

instance (ops : List RegistryOp) : Decidable (AllCareful ops) := decidableAllCareful ops

def firstClient : Client := ⟨1, 1, "Game"⟩

def secondClient : Client := ⟨2, 2, "Game"⟩

/-- Two clients of one game and one tag: the slot of the first is kicked, then both leave. -/
def sharedTags : List RegistryOp :=
  [.unregister secondClient, .unregister firstClient, .kick 1,
    .register secondClient ["DeathLink"], .register firstClient ["DeathLink"]]

/-- After that all four maps are empty. -/
theorem sharedTags_agree : AllCareful sharedTags ∧ (registryAfter sharedTags).1 = .new := by
  have careful : AllCareful sharedTags := by decide
  have orderly : Orderly sharedTags := by decide
  have agrees := (maps_agree_iff orderly).2 careful sharedTags List.suffix_rfl
  exact ⟨careful, agrees.empty (by decide)⟩

/-- A client that is alone in its game is kicked. -/
def lonelyKick : List RegistryOp := [.kick 1, .register firstClient ["DeathLink"]]

/-- A client is kicked, changes its tags in a message that was already read, and leaves. -/
def lateTags : List RegistryOp :=
  [.unregister firstClient, .updateTags firstClient ["TextOnly"], .kick 1,
    .register secondClient ["DeathLink"], .register firstClient ["DeathLink"]]

/-- The maps out of order: an empty list stays after a kick; and a client that has left is still filed under
the tags it sent after it was kicked. -/
theorem maps_disagree :
    (Orderly lonelyKick ∧ (registryAfter lonelyKick).1.clientsByGame "Game" = some [] ∧
        ¬ Agrees (registryAfter lonelyKick).1 (registryAfter lonelyKick).2) ∧
      Orderly lateTags ∧ firstClient ∈ (registryAfter lateTags).1.clientsByTag.get "TextOnly" ∧
        firstClient ∉ (registryAfter lateTags).2.present ∧
        ¬ Agrees (registryAfter lateTags).1 (registryAfter lateTags).2 := by
  have left : (registryAfter lonelyKick).1.clientsByGame "Game" = some [] := by decide
  have filed : firstClient ∈ (registryAfter lateTags).1.clientsByTag.get "TextOnly" := by
    decide
  have absent : firstClient ∉ (registryAfter lateTags).2.present := by decide
  refine ⟨⟨by decide, left, ?_⟩, by decide, filed, absent, ?_⟩
  · intro agrees
    exact agrees.noEmpty.2.1 "Game" left
  · intro agrees
    exact absent ((agrees.byTag "TextOnly" firstClient).1 filed).1

end ArchipelagoXL.Apx
