import Mathlib.Data.List.AList
import Mathlib.Data.List.MinMax
import Mathlib.Data.Prod.Lex
import Mathlib.Data.String.Basic
import Mathlib.Order.Lattice
import Mathlib.Tactic.Common

/-!
# A Redis server, one command at a time

The part of Redis that a client with string keys, sorted sets, hashes of fields and publish/subscribe
relies on. A `Store` is the server's state, `Cmd` its commands; a command is one atomic step with an
effect on the store (`Cmd.effect`) and a reply (`Cmd.reply`). An `Instr` is a command together with
what the client does with the reply, which is how a client's program is cut into atomic steps.

Members of sorted sets and fields of hashes are taken from a type `μ` with a text form, string values
from `ν` and hash values from `γ`. Keys that hold a counter are kept apart from the other string keys.
A connection is a number; its inbox holds the pushes it has not read yet.

The second half says once and for all which commands can add or remove a member, a field or a key.
-/

namespace Redis

/-- The text under which a member or a field is stored. -/
class HasText (μ : Type) where
  text : μ → String

/-- What a subscribed connection is sent. -/
inductive Push where
  | subscribe (channel : String)
  | message (channel payload : String)
deriving DecidableEq

structure Store (μ ν γ : Type) where
  strs : AList fun _ : String => ν
  /-- The string keys that were given a time to live. -/
  expiring : List String
  counters : String → ℕ
  zsets : String → AList fun _ : μ => ℤ
  hashes : String → AList fun _ : μ => γ
  sets : String → List String
  subs : String → List ℕ
  inbox : ℕ → List Push

/-- The empty server. -/
def Store.empty {μ ν γ : Type} : Store μ ν γ where
  strs := ∅
  expiring := []
  counters := fun _ => 0
  zsets := fun _ => ∅
  hashes := fun _ => ∅
  sets := fun _ => []
  subs := fun _ => []
  inbox := fun _ => []

inductive Cmd (μ ν γ : Type) where
  /-- A local step that sends nothing. -/
  | nop
  | get (key : String)
  | set (key : String) (v : ν)
  | setEx (key : String) (v : ν)
  | del (key : String)
  | exist (key : String)
  /-- `KEYS pre*`. -/
  | keys (pre : String)
  | incr (key : String)
  | count (key : String)
  | hget (key : String) (field : μ)
  | hset (key : String) (field : μ) (v : γ)
  | hdel (key : String) (field : μ)
  | hexists (key : String) (field : μ)
  | hgetall (key : String)
  | hlen (key : String)
  | zadd (key : String) (member : μ) (score : ℤ)
  | zpopmin (key : String)
  | zrem (key : String) (member : μ)
  | zcount (key : String) (lo hi : ℤ)
  | sadd (key : String) (member : String)
  | smembers (key : String)
  | publish (channel payload : String)
  | subscribe (channel : String)
  | unsubscribe (channel : String)
  /-- Reading the next push, if there is one. -/
  | recv

variable {μ ν γ α β : Type}

/-- The type of a command's reply. -/
@[reducible] def Cmd.Reply : Cmd μ ν γ → Type
  | .get _ => Option ν
  | .exist _ => Bool
  | .keys _ => List String
  | .count _ => ℕ
  | .hget _ _ => Option γ
  | .hexists _ _ => Bool
  | .hgetall _ => List γ
  | .hlen _ => ℕ
  | .zpopmin _ => Option (μ × ℤ)
  | .zcount _ _ _ => ℕ
  | .smembers _ => List String
  | .recv => Option Push
  | _ => Unit

-- found before the order that the integers have as a conditionally complete lattice, which does not
-- compute
instance (priority := 2000) scoreOrder : Preorder (ℤ ×ₗ String) :=
  (Prod.Lex.instLinearOrder ℤ String).toPreorder

/-- The member of least score, the least text among those of equal score. -/
def first [HasText μ] (z : AList fun _ : μ => ℤ) : Option (μ × ℤ) :=
  (z.entries.argmin fun e => toLex (e.2, HasText.text e.1)).map fun e => (e.1, e.2)

section Semantics
variable [DecidableEq μ] [HasText μ]

/-- The store after connection `conn` issued a command. -/
def Cmd.effect (conn : ℕ) (s : Store μ ν γ) : Cmd μ ν γ → Store μ ν γ
  | .set k v => { s with strs := s.strs.insert k v, expiring := s.expiring.filter (· ≠ k) }
  | .setEx k v => { s with strs := s.strs.insert k v, expiring := k :: s.expiring }
  | .del k => { s with strs := s.strs.erase k }
  | .incr k => { s with counters := Function.update s.counters k (s.counters k + 1) }
  | .hset k f v => { s with hashes := Function.update s.hashes k ((s.hashes k).insert f v) }
  | .hdel k f => { s with hashes := Function.update s.hashes k ((s.hashes k).erase f) }
  | .zadd k m n => { s with zsets := Function.update s.zsets k ((s.zsets k).insert m n) }
  | .zpopmin k =>
    match first (s.zsets k) with
    | none => s
    | some (m, _) => { s with zsets := Function.update s.zsets k ((s.zsets k).erase m) }
  | .zrem k m => { s with zsets := Function.update s.zsets k ((s.zsets k).erase m) }
  | .sadd k m => { s with sets := Function.update s.sets k ((s.sets k).insert m) }
  | .publish ch p =>
    { s with inbox := fun c => if c ∈ s.subs ch then s.inbox c ++ [.message ch p] else s.inbox c }
  | .subscribe ch =>
    { s with
      subs := Function.update s.subs ch ((s.subs ch).insert conn)
      inbox := Function.update s.inbox conn (s.inbox conn ++ [.subscribe ch]) }
  | .unsubscribe ch => { s with subs := Function.update s.subs ch ((s.subs ch).erase conn) }
  | .recv => { s with inbox := Function.update s.inbox conn (s.inbox conn).tail }
  | .nop | .get _ | .exist _ | .keys _ | .count _ | .hget _ _ | .hexists _ _ | .hgetall _ | .hlen _
  | .zcount _ _ _ | .smembers _ => s

/-- The reply of a command. -/
def Cmd.reply (conn : ℕ) (s : Store μ ν γ) : (c : Cmd μ ν γ) → c.Reply
  | .get k => s.strs.lookup k
  | .exist k => (s.strs.lookup k).isSome
  | .keys p => s.strs.keys.filter fun k => p.toList.isPrefixOf k.toList
  | .count k => s.counters k
  | .hget k f => (s.hashes k).lookup f
  | .hexists k f => ((s.hashes k).lookup f).isSome
  | .hgetall k => (s.hashes k).entries.map (·.2)
  | .hlen k => (s.hashes k).entries.length
  | .zpopmin k => first (s.zsets k)
  | .zcount k lo hi => ((s.zsets k).entries.filter fun e => lo ≤ e.2 ∧ e.2 ≤ hi).length
  | .smembers k => s.sets k
  | .recv => (s.inbox conn).head?
  | .nop | .set _ _ | .setEx _ _ | .del _ | .incr _ | .hset _ _ _ | .hdel _ _ | .zadd _ _ _
  | .zrem _ _ | .sadd _ _ | .publish _ _ | .subscribe _ | .unsubscribe _ => ()

end Semantics

/-- A command and what is done with its reply. -/
structure Instr (μ ν γ α : Type) where
  cmd : Cmd μ ν γ
  next : cmd.Reply → α

/-- The same command, its outcome handed on. -/
def Instr.map (f : α → β) (i : Instr μ ν γ α) : Instr μ ν γ β :=
  ⟨i.cmd, fun r => f (i.next r)⟩

@[simp] lemma Instr.map_cmd (f : α → β) (i : Instr μ ν γ α) : (i.map f).cmd = i.cmd := rfl

/-- The outcome of an instruction issued by `conn`. -/
def Instr.outcome [DecidableEq μ] [HasText μ] (conn : ℕ) (s : Store μ ν γ) (i : Instr μ ν γ α) : α :=
  i.next (i.cmd.reply conn s)

@[simp] lemma Instr.map_outcome [DecidableEq μ] [HasText μ] (conn : ℕ) (s : Store μ ν γ)
    (f : α → β) (i : Instr μ ν γ α) : (i.map f).outcome conn s = f (i.outcome conn s) := rfl

/-! ## Sorted sets -/

section
variable [HasText μ]

/-- What `first` gives is a member with its score. -/
lemma first_mem {z : AList fun _ : μ => ℤ} {m : μ} {n : ℤ} (h : first z = some (m, n)) :
    ⟨m, n⟩ ∈ z.entries := by
  unfold first at h
  rw [Option.map_eq_some_iff] at h
  obtain ⟨e, he, eq⟩ := h
  have mem := List.argmin_mem he
  cases e
  cases eq
  exact mem

lemma first_lookup [DecidableEq μ] {z : AList fun _ : μ => ℤ} {m : μ} {n : ℤ}
    (h : first z = some (m, n)) : z.lookup m = some n :=
  AList.mem_lookup_iff.2 (first_mem h)

lemma first_mem_key {z : AList fun _ : μ => ℤ} {m : μ} {n : ℤ} (h : first z = some (m, n)) :
    m ∈ z :=
  List.mem_keys_of_mem (first_mem h)

end

/-! ## What a command can change -/

section Frame
variable [DecidableEq μ] [HasText μ] {i : ℕ} {s : Store μ ν γ} {c : Cmd μ ν γ}

@[simp] lemma effect_set {k : String} {v : ν} : (Cmd.set k v : Cmd μ ν γ).effect i s =
    { s with strs := s.strs.insert k v, expiring := s.expiring.filter (· ≠ k) } := rfl

@[simp] lemma effect_setEx {k : String} {v : ν} : (Cmd.setEx k v : Cmd μ ν γ).effect i s =
    { s with strs := s.strs.insert k v, expiring := k :: s.expiring } := rfl

@[simp] lemma effect_del {k : String} : (Cmd.del k : Cmd μ ν γ).effect i s =
    { s with strs := s.strs.erase k } := rfl

@[simp] lemma effect_hset {k : String} {m : μ} {v : γ} : (Cmd.hset k m v : Cmd μ ν γ).effect i s =
    { s with hashes := Function.update s.hashes k ((s.hashes k).insert m v) } := rfl

@[simp] lemma effect_hdel {k : String} {m : μ} : (Cmd.hdel k m : Cmd μ ν γ).effect i s =
    { s with hashes := Function.update s.hashes k ((s.hashes k).erase m) } := rfl

@[simp] lemma effect_zadd {k : String} {m : μ} {n : ℤ} : (Cmd.zadd k m n : Cmd μ ν γ).effect i s =
    { s with zsets := Function.update s.zsets k ((s.zsets k).insert m n) } := rfl

@[simp] lemma effect_zrem {k : String} {m : μ} : (Cmd.zrem k m : Cmd μ ν γ).effect i s =
    { s with zsets := Function.update s.zsets k ((s.zsets k).erase m) } := rfl

lemma effect_zpopmin_none {k : String} (h : first (s.zsets k) = none) :
    (Cmd.zpopmin k : Cmd μ ν γ).effect i s = s := by
  show (match first (s.zsets k) with
    | none => s
    | some (m, _) => { s with zsets := Function.update s.zsets k ((s.zsets k).erase m) }) = s
  rw [h]

/-- What is popped is removed. -/
lemma effect_zpopmin_some {k : String} {m : μ} {n : ℤ} (h : first (s.zsets k) = some (m, n)) :
    (Cmd.zpopmin k : Cmd μ ν γ).effect i s = (Cmd.zrem k m : Cmd μ ν γ).effect i s := by
  show (match first (s.zsets k) with
    | none => s
    | some (m, _) => { s with zsets := Function.update s.zsets k ((s.zsets k).erase m) }) = _
  rw [h, effect_zrem]

/-- Popping is nothing or the removal of a member. -/
lemma effect_zpopmin (i : ℕ) (s : Store μ ν γ) (k : String) :
    (first (s.zsets k) = none ∧ (Cmd.zpopmin k : Cmd μ ν γ).effect i s = s) ∨
      ∃ m n, first (s.zsets k) = some (m, n) ∧
        (Cmd.zpopmin k : Cmd μ ν γ).effect i s = (Cmd.zrem k m : Cmd μ ν γ).effect i s := by
  cases h : first (s.zsets k) with
  | none => exact .inl ⟨rfl, effect_zpopmin_none h⟩
  | some p => exact .inr ⟨p.1, p.2, rfl, effect_zpopmin_some h⟩

/-- A member of a sorted set has its old score or has just been added. -/
lemma lookup_zset_effect {k : String} {m : μ} {n : ℤ}
    (h : ((c.effect i s).zsets k).lookup m = some n) :
    (s.zsets k).lookup m = some n ∨ c = .zadd k m n := by
  have erased : ∀ {k' m'}, (Function.update s.zsets k' ((s.zsets k').erase m') k).lookup m = some n →
      (s.zsets k).lookup m = some n := by
    intro k' m' h
    by_cases ek : k = k'
    · subst ek
      by_cases em : m = m'
      · subst em
        simp at h
      · simpa [AList.lookup_erase_ne em] using h
    · simpa [Function.update_of_ne ek] using h
  cases c with
  | zadd k' m' n' =>
    by_cases ek : k = k'
    · subst ek
      by_cases em : m = m'
      · subst em
        simp only [effect_zadd, Function.update_self, AList.lookup_insert, Option.some.injEq] at h
        subst h
        exact .inr rfl
      · simp only [effect_zadd, Function.update_self, AList.lookup_insert_ne em] at h
        exact .inl h
    · simp only [effect_zadd, Function.update_of_ne ek] at h
      exact .inl h
  | zrem k' m' => exact .inl (erased h)
  | zpopmin k' =>
    rcases effect_zpopmin i s k' with ⟨-, eq⟩ | ⟨m', n', -, eq⟩
    · rw [eq] at h
      exact .inl h
    · rw [eq] at h
      exact .inl (erased h)
  | _ => exact .inl h

/-- A member of a sorted set was there before or has just been added. -/
lemma mem_zset_effect {k : String} {m : μ} (h : m ∈ (c.effect i s).zsets k) :
    m ∈ s.zsets k ∨ ∃ n, c = .zadd k m n := by
  obtain ⟨n, hn⟩ := Option.isSome_iff_exists.1 (AList.lookup_isSome.2 h)
  rcases lookup_zset_effect hn with hn | rfl
  · exact .inl (AList.lookup_isSome.1 (by simp [hn]))
  · exact .inr ⟨n, rfl⟩

/-- A member of a sorted set stays unless it is removed or popped. -/
lemma zset_effect_of_mem {k : String} {m : μ} (h : m ∈ s.zsets k) :
    m ∈ (c.effect i s).zsets k ∨ c = .zrem k m ∨
      (c = .zpopmin k ∧ ∃ n, first (s.zsets k) = some (m, n)) := by
  cases c with
  | zadd k' m' n =>
    by_cases ek : k = k'
    · subst ek
      exact .inl (by simp [h])
    · exact .inl (by simpa [Function.update_of_ne ek] using h)
  | zrem k' m' =>
    by_cases ek : k = k'
    · subst ek
      by_cases em : m = m'
      · subst em
        exact .inr (.inl rfl)
      · exact .inl (by simp [h, em])
    · exact .inl (by simpa [Function.update_of_ne ek] using h)
  | zpopmin k' =>
    rcases effect_zpopmin i s k' with ⟨-, eq⟩ | ⟨m', n, popped, eq⟩
    · rw [eq]
      exact .inl h
    · rw [eq]
      by_cases ek : k = k'
      · subst ek
        by_cases em : m = m'
        · subst em
          exact .inr (.inr ⟨rfl, n, popped⟩)
        · exact .inl (by simp [h, em])
      · exact .inl (by simpa [Function.update_of_ne ek] using h)
  | _ => exact .inl h

/-- `ZREM` leaves the member out. -/
lemma not_mem_zset_zrem {k : String} {m : μ} :
    m ∉ ((Cmd.zrem k m : Cmd μ ν γ).effect i s).zsets k := by
  simp

/-- A field of a hash has its old value or the one it was just given. -/
lemma lookup_hash_effect {k : String} {m : μ} {v : γ}
    (h : ((c.effect i s).hashes k).lookup m = some v) :
    (s.hashes k).lookup m = some v ∨ c = .hset k m v := by
  cases c with
  | hset k' m' v' =>
    by_cases ek : k = k'
    · subst ek
      by_cases em : m = m'
      · subst em
        simp only [effect_hset, Function.update_self, AList.lookup_insert, Option.some.injEq] at h
        subst h
        exact .inr rfl
      · simp only [effect_hset, Function.update_self, AList.lookup_insert_ne em] at h
        exact .inl h
    · simp only [effect_hset, Function.update_of_ne ek] at h
      exact .inl h
  | hdel k' m' =>
    by_cases ek : k = k'
    · subst ek
      by_cases em : m = m'
      · subst em
        simp at h
      · simp only [effect_hdel, Function.update_self, AList.lookup_erase_ne em] at h
        exact .inl h
    · simp only [effect_hdel, Function.update_of_ne ek] at h
      exact .inl h
  | zpopmin k' =>
    rcases effect_zpopmin i s k' with ⟨-, eq⟩ | ⟨m', n, -, eq⟩ <;> rw [eq] at h <;> exact .inl h
  | _ => exact .inl h

/-- A field of a hash keeps its value unless it is written or deleted. -/
lemma hash_effect_of_lookup {k : String} {m : μ} {v : γ} (h : (s.hashes k).lookup m = some v) :
    ((c.effect i s).hashes k).lookup m = some v ∨ (∃ v', c = .hset k m v') ∨ c = .hdel k m := by
  cases c with
  | hset k' m' v' =>
    by_cases ek : k = k'
    · subst ek
      by_cases em : m = m'
      · subst em
        exact .inr (.inl ⟨v', rfl⟩)
      · exact .inl (by simp [AList.lookup_insert_ne em, h])
    · exact .inl (by simpa [Function.update_of_ne ek] using h)
  | hdel k' m' =>
    by_cases ek : k = k'
    · subst ek
      by_cases em : m = m'
      · subst em
        exact .inr (.inr rfl)
      · exact .inl (by simp [AList.lookup_erase_ne em, h])
    · exact .inl (by simpa [Function.update_of_ne ek] using h)
  | zpopmin k' =>
    rcases effect_zpopmin i s k' with ⟨-, eq⟩ | ⟨m', n, -, eq⟩ <;> rw [eq] <;> exact .inl h
  | _ => exact .inl h

/-- `HSET` stores the value. -/
@[simp] lemma lookup_hash_hset {k : String} {m : μ} {v : γ} :
    (((Cmd.hset k m v : Cmd μ ν γ).effect i s).hashes k).lookup m = some v := by
  simp

/-- `HDEL` leaves the field out. -/
@[simp] lemma lookup_hash_hdel {k : String} {m : μ} :
    (((Cmd.hdel k m : Cmd μ ν γ).effect i s).hashes k).lookup m = none := by
  simp

/-- A string key has its old value or the one it was just given. -/
lemma lookup_strs_effect {k : String} {v : ν} (h : (c.effect i s).strs.lookup k = some v) :
    s.strs.lookup k = some v ∨ c = .set k v ∨ c = .setEx k v := by
  cases c with
  | set k' v' =>
    by_cases ek : k = k'
    · subst ek
      simp only [effect_set, AList.lookup_insert, Option.some.injEq] at h
      subst h
      exact .inr (.inl rfl)
    · simp only [effect_set, AList.lookup_insert_ne ek] at h
      exact .inl h
  | setEx k' v' =>
    by_cases ek : k = k'
    · subst ek
      simp only [effect_setEx, AList.lookup_insert, Option.some.injEq] at h
      subst h
      exact .inr (.inr rfl)
    · simp only [effect_setEx, AList.lookup_insert_ne ek] at h
      exact .inl h
  | del k' =>
    by_cases ek : k = k'
    · subst ek
      simp at h
    · simp only [effect_del, AList.lookup_erase_ne ek] at h
      exact .inl h
  | zpopmin k' =>
    rcases effect_zpopmin i s k' with ⟨-, eq⟩ | ⟨m', n, -, eq⟩ <;> rw [eq] at h <;> exact .inl h
  | _ => exact .inl h

/-- A key that can expire could before, or was just given a time to live. -/
lemma mem_expiring_effect {k : String} (h : k ∈ (c.effect i s).expiring) :
    k ∈ s.expiring ∨ ∃ v, c = .setEx k v := by
  cases c with
  | set k' v => exact .inl (List.mem_of_mem_filter h)
  | setEx k' v =>
    rcases List.mem_cons.1 h with rfl | h
    · exact .inr ⟨v, rfl⟩
    · exact .inl h
  | zpopmin k' =>
    rcases effect_zpopmin i s k' with ⟨-, eq⟩ | ⟨m', n, -, eq⟩ <;> rw [eq] at h <;> exact .inl h
  | _ => exact .inl h

/-- Nothing is taken out of a set. -/
lemma mem_sets_effect {k m : String} (h : m ∈ s.sets k) : m ∈ (c.effect i s).sets k := by
  cases c with
  | sadd k' m' =>
    by_cases ek : k = k'
    · subst ek
      simp [Cmd.effect, h]
    · simpa [Cmd.effect, Function.update_of_ne ek] using h
  | zpopmin k' =>
    rcases effect_zpopmin i s k' with ⟨-, eq⟩ | ⟨m', n, -, eq⟩ <;> rw [eq] <;> exact h
  | _ => exact h

/-- A set has each of its members once. -/
lemma nodup_sets_effect {k : String} (h : (s.sets k).Nodup) : ((c.effect i s).sets k).Nodup := by
  cases c with
  | sadd k' m' =>
    by_cases ek : k = k'
    · subst ek
      simpa [Cmd.effect] using h.insert
    · simpa [Cmd.effect, Function.update_of_ne ek] using h
  | zpopmin k' =>
    rcases effect_zpopmin i s k' with ⟨-, eq⟩ | ⟨m', n, -, eq⟩ <;> rw [eq] <;> exact h
  | _ => exact h

/-- A counter changes only by being counted up. -/
lemma counters_effect (k : String) : (c.effect i s).counters k = s.counters k ∨ c = .incr k := by
  cases c with
  | incr k' =>
    by_cases ek : k = k'
    · subst ek
      exact .inr rfl
    · exact .inl (by simp [Cmd.effect, Function.update_of_ne ek])
  | zpopmin k' =>
    rcases effect_zpopmin i s k' with ⟨-, eq⟩ | ⟨m', n, -, eq⟩ <;> rw [eq] <;> exact .inl rfl
  | _ => exact .inl rfl

end Frame

end Redis
